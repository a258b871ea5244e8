import CommandSyntax.Proofs.Grammar.Orderly

/-!
# CommandSyntax.Proofs.Grammar.Loop

**How loops succeed.** A loop whose rounds bring the cursor forward whenever they go
on ends only by a round that is done (`Loops`, `loop_eq_ok_iff`): the test by which
every loop ends is then never what ends it.

Four loops of the grammar only pass lexemes of some class and keep a tally of them
(`passWhile`). Such a loop passes the longest run of lexemes of its class
(`loop_passWhile_eq_ok_iff`).
-/

namespace CommandSyntax.Production

open Cursor

variable {α β σ : Type} {c c' : Cursor}

/-! ### Success, by the way a production is built -/

theorem bind_eq_ok_iff {p : Production α} {next : α → Production β} {result : β} :
    (p >>= next) c = .ok result c' ↔
      ∃ value c₁, p c = .ok value c₁ ∧ next value c₁ = .ok result c' := by
  cases h : p c with
  | ok value c₁ =>
    rw [bind_of_eq_ok next h]
    constructor
    · exact fun h' => ⟨value, c₁, rfl, h'⟩
    · intro h
      obtain ⟨value', c₂, hfirst, h'⟩ := h
      obtain ⟨rfl, rfl⟩ := EStateM.Result.ok.inj hfirst
      exact h'
  | error error c₁ => simp [bind_of_eq_error next h]

theorem map_eq_ok_iff {p : Production α} {f : α → β} {result : β} :
    (f <$> p) c = .ok result c' ↔ ∃ value, p c = .ok value c' ∧ f value = result := by
  rw [← bind_pure_comp, bind_eq_ok_iff]
  constructor
  · intro h
    obtain ⟨value, c₁, h, h'⟩ := h
    obtain ⟨hresult, rfl⟩ := EStateM.Result.ok.inj h'
    exact ⟨value, h, hresult⟩
  · intro h
    obtain ⟨value, h, rfl⟩ := h
    exact ⟨value, c', h, rfl⟩

@[simp] theorem current_bind_apply (next : Lexeme → Production β) (c : Cursor) :
    (current >>= next) c = next c.current c := rfl

@[simp] theorem lastEnd_bind_apply (next : Nat → Production β) (c : Cursor) :
    (lastEnd >>= next) c = next c.lastEnd c := rfl

/-- To take a lexeme is to pass it. -/
theorem take_eq_ok_iff {lexeme : Lexeme} (hkind : c.current.kind ≠ .stop) :
    take c = .ok lexeme c' ↔ lexeme = c.current ∧ c.Passes [c.current] c' := by
  constructor
  · intro h
    exact ⟨(take_eq_ok h).1, .single hkind h⟩
  · intro h
    obtain ⟨rfl, h⟩ := h
    obtain ⟨-, -, c₁, htake, hnil⟩ := passes_cons_iff.1 h
    rwa [passes_nil_iff.1 hnil] at htake

theorem accept_eq_ok_iff {kind : TokenKind} (hkind : kind ≠ .stop) {accepted : Bool} :
    accept kind c = .ok accepted c' ↔
      (c.current.kind = kind ∧ accepted = true ∧ c.Passes [c.current] c') ∨
        (c.current.kind ≠ kind ∧ accepted = false ∧ c = c') := by
  by_cases h : c.current.kind = kind
  · rw [accept_of_kind_eq h, bind_eq_ok_iff]
    constructor
    · intro h
      obtain ⟨lexeme, c₁, htake, hpure⟩ := h
      obtain ⟨rfl, rfl⟩ := EStateM.Result.ok.inj hpure
      exact .inl ⟨h, rfl, ((take_eq_ok_iff (h ▸ hkind)).1 htake).2⟩
    · rintro (⟨-, rfl, hpasses⟩ | ⟨hne, -⟩)
      · exact ⟨_, c', (take_eq_ok_iff (h ▸ hkind)).2 ⟨rfl, hpasses⟩, rfl⟩
      · exact absurd h hne
  · simp [accept_of_kind_ne h, h, eq_comm]

theorem require_eq_ok_iff {kind : TokenKind} (hkind : kind ≠ .stop) {lexeme : Lexeme} :
    require kind c = .ok lexeme c' ↔
      c.current.kind = kind ∧ lexeme = c.current ∧ c.Passes [c.current] c' := by
  by_cases h : c.current.kind = kind
  · rw [require_of_kind_eq h, take_eq_ok_iff (h ▸ hkind)]
    simp [h]
  · simp [require_of_kind_ne h, h]

/-! ### Productions that give the same -/

theorem bind_congr_at {p p' : Production α} {next next' : α → Production β} (h : p c = p' c)
    (hnext : ∀ value c', p c = .ok value c' → next value c' = next' value c') :
    (p >>= next) c = (p' >>= next') c := by
  cases hp : p c with
  | ok value c' =>
    rw [bind_of_eq_ok next hp, bind_of_eq_ok next' (h ▸ hp)]
    exact hnext value c' hp
  | error error c' => rw [bind_of_eq_error next hp, bind_of_eq_error next' (h ▸ hp)]

/-- Where its delimiters can be stripped, a token is left behind for what its text means. -/
theorem tokenText_of_strip? {kind : TokenKind} {left right : Nat} {inner : List Char}
    (hkind : c.current.kind = kind) (hstrip : Text.strip? left right c.current.text = some inner)
    (escapes : List Quoting.Escape) :
    tokenText kind left right escapes c =
      (take >>= fun _ => pure (Quoting.unescape escapes inner)) c := by
  rw [tokenText, current_bind_apply, hstrip]
  exact bind_congr_at (require_of_kind_eq hkind) fun _ _ _ => rfl

theorem tokenText_bind_of_strip? {kind : TokenKind} {left right : Nat} {inner : List Char}
    (hkind : c.current.kind = kind) (hstrip : Text.strip? left right c.current.text = some inner)
    (escapes : List Quoting.Escape) (next : List Char → Production β) :
    (tokenText kind left right escapes >>= next) c =
      (take >>= fun _ => next (Quoting.unescape escapes inner)) c := by
  have hbind : (tokenText kind left right escapes >>= next) c =
      ((take >>= fun _ => pure (Quoting.unescape escapes inner)) >>= next) c :=
    bind_congr_at (tokenText_of_strip? hkind hstrip escapes) fun _ _ _ => rfl
  rwa [bind_assoc] at hbind

/-- Without escapes the text is what it means. -/
theorem tokenText_nil_bind_of_strip? {kind : TokenKind} {left right : Nat} {inner : List Char}
    (hkind : c.current.kind = kind) (hstrip : Text.strip? left right c.current.text = some inner)
    (next : List Char → Production β) :
    (tokenText kind left right [] >>= next) c = (take >>= fun _ => next inner) c := by
  rw [tokenText_bind_of_strip? hkind hstrip, Quoting.unescape_nil]

/-- Only a token of the kind gives its text. -/
theorem kind_of_tokenText {kind : TokenKind} {left right : Nat}
    {escapes : List Quoting.Escape} {text : List Char}
    (h : tokenText kind left right escapes c = .ok text c') : c.current.kind = kind := by
  by_contra hkind
  cases hstrip : Text.strip? left right c.current.text with
  | none => simp [tokenText, hstrip] at h
  | some inner =>
    simp only [tokenText, current_bind_apply, hstrip] at h
    obtain ⟨lexeme, c₁, hrequire, -⟩ := bind_eq_ok_iff.1 h
    simp [require_of_kind_ne hkind] at hrequire

/-- Rounds that do the same wherever they are run may be exchanged. What is known of the cursors
has to be kept by the rounds. -/
theorem loop_congr (At : Cursor → Prop) {round round' : σ → Production (ForInStep σ)}
    (hkeep : ∀ {state result c c'}, At c → round state c = .ok result c' → At c')
    (hround : ∀ state c, At c → round state c = round' state c) (state : σ) (h : At c) :
    loop round state c = loop round' state c := by
  induction hn : c.left using Nat.strongRecOn generalizing state c with
  | ind n ih =>
    subst hn
    have heq := hround state c h
    cases hresult : round state c with
    | error error c' => rw [loop_of_error hresult, loop_of_error (heq ▸ hresult)]
    | ok result c' =>
      cases result with
      | done state' => rw [loop_of_done hresult, loop_of_done (heq ▸ hresult)]
      | yield state' =>
        rw [loop, loop, ← heq, hresult]
        by_cases hleft : c'.left < c.left
        · have hrest := ih c'.left hleft state' (hkeep h hresult) rfl
          simpa only [if_pos hleft] using hrest
        · simp only [if_neg hleft]

/-! ### Loops that end by themselves -/

/-- Rounds lead from a state and a cursor to a last round that is done. -/
inductive Loops (round : σ → Production (ForInStep σ)) : σ → Cursor → σ → Cursor → Prop
  /-- The first round is done. -/
  | done {state state' : σ} {c c' : Cursor} (h : round state c = .ok (.done state') c') :
      Loops round state c state' c'
  /-- The first round goes on. -/
  | yield {state state₁ state' : σ} {c c₁ c' : Cursor}
      (h : round state c = .ok (.yield state₁) c₁) (hrest : Loops round state₁ c₁ state' c') :
      Loops round state c state' c'

/-- Rounds that read in order, and that bring the cursor forward whenever they go on. -/
structure Advances (round : σ → Production (ForInStep σ)) : Prop where
  /-- Every round reads in order. -/
  orderly : ∀ state, Orderly (round state)
  /-- A round that goes on has passed a lexeme. -/
  ne_nil : ∀ {state state' : σ} {c c' : Cursor} {lexemes : List Lexeme}, c.Placed →
    round state c = .ok (.yield state') c' → c.Passes lexemes c' → lexemes ≠ []

theorem Advances.left_lt {round : σ → Production (ForInStep σ)} (h : Advances round)
    {state state' : σ} (hc : c.Placed) (hround : round state c = .ok (.yield state') c') :
    c'.Placed ∧ c'.left < c.left := by
  obtain ⟨lexemes, hpasses⟩ := (h.orderly state hc).passes hround
  exact ⟨hpasses.placed hc, hpasses.left_lt hc (h.ne_nil hc hround hpasses)⟩

/-- A loop of rounds that advance succeeds only by a round that is done. -/
theorem loop_eq_ok_iff {round : σ → Production (ForInStep σ)} (h : Advances round)
    {state state' : σ} (hc : c.Placed) :
    loop round state c = .ok state' c' ↔ Loops round state c state' c' := by
  constructor
  · intro hloop
    -- a round that goes on leaves less of the input, so the loop never stops short of it
    induction hn : c.left using Nat.strongRecOn generalizing state c with
    | ind n ih =>
      subst hn
      cases hround : round state c with
      | error error c₁ => simp [loop_of_error hround] at hloop
      | ok result c₁ =>
        cases result with
        | done state₁ =>
          rw [loop_of_done hround] at hloop
          obtain ⟨rfl, rfl⟩ := EStateM.Result.ok.inj hloop
          exact .done hround
        | yield state₁ =>
          obtain ⟨hc₁, hleft⟩ := h.left_lt hc hround
          rw [loop_of_yield hround hleft] at hloop
          exact .yield hround (ih _ hleft hc₁ hloop rfl)
  · intro hloops
    induction hloops with
    | done hround => exact loop_of_done hround
    | yield hround _ ih =>
      obtain ⟨hc₁, hleft⟩ := h.left_lt hc hround
      rw [loop_of_yield hround hleft, ih hc₁]

/-! ### Loops that gather a list -/

/-- Rounds that go on and a last round gather items, in order. -/
inductive Gathers (more last : Cursor → List α → Cursor → Prop) :
    Cursor → List α → Cursor → Prop
  /-- The first round is the last. -/
  | done {c c' : Cursor} {items : List α} (h : last c items c') : Gathers more last c items c'
  /-- The first round goes on. -/
  | yield {c c₁ c' : Cursor} {items rest : List α} (h : more c items c₁)
      (hrest : Gathers more last c₁ rest c') : Gathers more last c (items ++ rest) c'

/-- When every round that goes on adds something, nothing is gathered by a last round alone. -/
theorem Gathers.last_of_nil {more last : Cursor → List α → Cursor → Prop}
    (hmore : ∀ {c c' : Cursor}, ¬ more c [] c') (h : Gathers more last c [] c') :
    last c [] c' := by
  generalize hitems : [] = items at h
  cases h with
  | done h => exact h
  | yield h _ =>
    obtain ⟨rfl, rfl⟩ := List.append_eq_nil_iff.1 hitems.symm
    exact absurd h hmore

/-- A round adds items to a list, of which the latest comes first. -/
structure GathersBy (round : List α → Production (ForInStep (List α)))
    (more last : Cursor → List α → Cursor → Prop) : Prop extends Advances round where
  /-- What a round adds that goes on. -/
  yield_iff : ∀ {c c' : Cursor} {gathered gathered' : List α}, c.Placed →
    (round gathered c = .ok (.yield gathered') c' ↔
      ∃ items, more c items c' ∧ gathered' = items.reverse ++ gathered)
  /-- What the last round adds. -/
  done_iff : ∀ {c c' : Cursor} {gathered gathered' : List α}, c.Placed →
    (round gathered c = .ok (.done gathered') c' ↔
      ∃ items, last c items c' ∧ gathered' = items.reverse ++ gathered)

/-- A loop of such rounds gathers what the rounds add. -/
theorem loop_eq_ok_iff_gathers {round : List α → Production (ForInStep (List α))}
    {more last : Cursor → List α → Cursor → Prop} (h : GathersBy round more last)
    (hc : c.Placed) {gathered gathered' : List α} :
    loop round gathered c = .ok gathered' c' ↔
      ∃ items, Gathers more last c items c' ∧ gathered' = items.reverse ++ gathered := by
  rw [loop_eq_ok_iff h.toAdvances hc]
  constructor
  · intro hloops
    induction hloops with
    | done hround =>
      obtain ⟨items, hlast, rfl⟩ := (h.done_iff hc).1 hround
      exact ⟨items, .done hlast, rfl⟩
    | yield hround _ ih =>
      obtain ⟨items, hmore, rfl⟩ := (h.yield_iff hc).1 hround
      obtain ⟨rest, hrest, rfl⟩ := ih (h.left_lt hc hround).1
      exact ⟨items ++ rest, .yield hmore hrest, by simp⟩
  · intro h
    obtain ⟨items, hgathers, rfl⟩ := h
    induction hgathers generalizing gathered with
    | done hlast => exact .done ((h.done_iff hc).2 ⟨_, hlast, rfl⟩)
    | @yield _ _ _ items rest hmore _ ih =>
      have hround : round gathered _ = .ok (.yield (items.reverse ++ gathered)) _ :=
        (h.yield_iff hc).2 ⟨items, hmore, rfl⟩
      refine .yield hround ?_
      rw [List.reverse_append, List.append_assoc]
      exact ih (h.left_lt hc hround).1

theorem GathersBy.passes {round : List α → Production (ForInStep (List α))}
    {more last : Cursor → List α → Cursor → Prop} (h : GathersBy round more last)
    (hc : c.Placed) {items : List α} (hgathers : Gathers more last c items c') :
    ∃ lexemes, c.Passes lexemes c' :=
  (orderly_loop h.orderly [] hc).passes
    ((loop_eq_ok_iff_gathers h hc).2 ⟨items, hgathers, rfl⟩)

/-! ### Loops that pass a run of lexemes -/

/-- A round that passes a lexeme for which there is a new tally, and is done at any other. -/
def passWhile (tally? : σ → Lexeme → Option σ) (tally : σ) : Production (ForInStep σ) := do
  let lexeme ← current
  match tally? tally lexeme with
  | some tally' =>
    let _ ← take
    return .yield tally'
  | none => return .done tally

variable {tally? : σ → Lexeme → Option σ} {tally tally' : σ}

theorem passWhile_of_eq_some (h : tally? tally c.current = some tally') :
    passWhile tally? tally c = (take >>= fun _ => pure (.yield tally')) c := by
  simp [passWhile, h]

theorem passWhile_of_eq_none (h : tally? tally c.current = none) :
    passWhile tally? tally c = .ok (.done tally) c := by
  simp [passWhile, h]

theorem passWhile_eq_done_iff :
    passWhile tally? tally c = .ok (.done tally') c' ↔
      tally? tally c.current = none ∧ tally = tally' ∧ c = c' := by
  cases h : tally? tally c.current with
  | some tally₁ =>
    rw [passWhile_of_eq_some h, bind_eq_ok_iff]
    simp
  | none => simp [passWhile_of_eq_none h]

/-- The lexemes for which there is a new tally never include the end marker. -/
def StopsAtEnd (tally? : σ → Lexeme → Option σ) : Prop :=
  ∀ ⦃tally tally' lexeme⦄, tally? tally lexeme = some tally' → lexeme.kind ≠ .stop

theorem passWhile_eq_yield_iff (h : StopsAtEnd tally?) :
    passWhile tally? tally c = .ok (.yield tally') c' ↔
      tally? tally c.current = some tally' ∧ c.Passes [c.current] c' := by
  cases htally : tally? tally c.current with
  | some tally₁ =>
    rw [passWhile_of_eq_some htally, bind_eq_ok_iff]
    constructor
    · intro h
      obtain ⟨lexeme, c₁, htake, hpure⟩ := h
      obtain ⟨hyield, rfl⟩ := EStateM.Result.ok.inj hpure
      exact ⟨congrArg some (ForInStep.yield.inj hyield), ((take_eq_ok_iff (h htally)).1 htake).2⟩
    · intro h
      obtain ⟨hsome, hpasses⟩ := h
      obtain rfl := Option.some.inj hsome
      exact ⟨_, c', (take_eq_ok_iff (h htally)).2 ⟨rfl, hpasses⟩, rfl⟩
  | none => simp [passWhile_of_eq_none htally]

theorem passWhile_advances (h : StopsAtEnd tally?) : Advances (passWhile tally?) where
  orderly tally c hc := by
    refine orderlyAt_current_bind ?_
    split
    · rename_i tally' htally
      exact (orderlyAt_take (h htally)).bind hc fun _ c' _ _ => orderlyAt_pure _ c'
    · exact orderlyAt_pure _ c
  ne_nil hc hround hpasses := by
    have hstep := ((passWhile_eq_yield_iff h).1 hround).2
    simp [hpasses.unique hstep hc]

/-- A loop that passes lexemes while there is a new tally passes the longest such run. -/
theorem loop_passWhile_eq_ok_iff (h : StopsAtEnd tally?) (hc : c.Placed) :
    loop (passWhile tally?) tally c = .ok tally' c' ↔
      ∃ lexemes, c.Passes lexemes c' ∧ lexemes.foldlM tally? tally = some tally' ∧
        tally? tally' c'.current = none := by
  rw [loop_eq_ok_iff (passWhile_advances h) hc]
  constructor
  · intro hloops
    induction hloops with
    | done hround =>
      obtain ⟨htally, rfl, rfl⟩ := passWhile_eq_done_iff.1 hround
      exact ⟨[], .nil _, rfl, htally⟩
    | yield hround _ ih =>
      obtain ⟨htally, hstep⟩ := (passWhile_eq_yield_iff h).1 hround
      obtain ⟨lexemes, hpasses, hfold, hnone⟩ := ih (hstep.placed hc)
      exact ⟨_ :: lexemes, hstep.trans hpasses, by simp [htally, hfold], hnone⟩
  · intro h
    obtain ⟨lexemes, hpasses, hfold, hnone⟩ := h
    induction hpasses generalizing tally with
    | nil c =>
      obtain rfl : tally = tally' := by simpa using hfold
      exact .done (passWhile_eq_done_iff.2 ⟨hnone, rfl, rfl⟩)
    | cons hkind htake _ ih =>
      rw [List.foldlM_cons] at hfold
      obtain ⟨tally₁, htally, hfold⟩ := Option.bind_eq_some_iff.1 hfold
      have hstep := Passes.single hkind htake
      exact .yield ((passWhile_eq_yield_iff h).2 ⟨htally, hstep⟩)
        (ih (hstep.placed hc) hfold hnone)

end CommandSyntax.Production
