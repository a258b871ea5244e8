import CommandSyntax.Proofs.Grammar.StatementSuccess
import CommandSyntax.Proofs.Token.Moving

/-!
# CommandSyntax.Proofs.Grammar.Simulation

**One run follows another.** A `Simulation` says how two streams go along with each other, the
one of a leader and the one of a follower that stands some bytes further on. A production of
the follower then does what the production of the leader does (`Follows`): it gives the same
value, or the same error, that many bytes further on.

Design points:

* Where the leader stands at the end of its input, the follower may stand on a token that ends
  a script just as well (`last`).
* The leader may go astray, to where its stream is not the follower's any more. The follower
  need not follow there, and everything that the leader can still give is an error that does
  not matter (`Lost`).
* The fact is shown once for each way of building productions; the productions themselves look
  at the current lexeme only, and that is the same for both (`Sees`).
-/

namespace CommandSyntax

open Production Cursor

/-- How a follower's stream goes along with the stream of a leader. -/
structure Simulation where
  /-- The number of bytes that the follower stands further on. -/
  shift : Nat
  /-- The number of bytes that the follower's input goes on further. -/
  extra : Nat
  /-- The kind of token on which the follower stands when the leader stands at the end. -/
  last : TokenKind
  /-- Whether backticks can be among the lexemes. -/
  ticks : Bool
  /-- The follower's stream goes along with the leader's. -/
  Along : TokenStream → TokenStream → Prop
  /-- The leader has come to a stream along which nobody need go. -/
  Astray : TokenStream → Prop
  /-- The errors of the leader that nobody need follow. -/
  Lost : SyntaxError → Prop
  /-- The kind at the end is one that ends scripts. -/
  stops_last : stops true last = true
  /-- Both streams begin with the same lexeme and go on alike, or fail alike. -/
  along_next : ∀ {lexeme rest stream}, Along (.next lexeme rest) stream →
    ∃ rest', stream = .next (lexeme.shift shift) rest' ∧
      (∀ error, rest = .failed error → Lost (.scan error) ∨ rest' = .failed (error.shift shift)) ∧
      ((∀ error, rest ≠ .failed error) →
        (∀ error, rest' ≠ .failed error) ∧ (Along rest rest' ∨ Astray rest))
  /-- At the end of the leader's stream there is the end, or a token of the kind. -/
  along_finished : ∀ {position stream}, Along (.finished position) stream →
    (last = .stop ∧ stream = .finished (position + shift)) ∨
      last ≠ .stop ∧ ∃ lexeme rest, stream = .next lexeme rest ∧ lexeme.kind = last ∧
        lexeme.start = position + shift
  /-- A leader that is astray stays so. -/
  astray_next : ∀ {lexeme rest}, Astray (.next lexeme rest) →
    (∀ error, rest = .failed error → Lost (.scan error)) ∧
      ((∀ error, rest ≠ .failed error) → Astray rest)
  /-- An error at a lexeme that is astray does not matter. -/
  lost_of_astray_next : ∀ {lexeme rest error span}, Astray (.next lexeme rest) →
    SyntaxError.span? error = some span → lexeme.stop ≤ span.stop → Lost error
  /-- Nor does one at an end that is astray. -/
  lost_of_astray_finished : ∀ {position error span}, Astray (.finished position) →
    SyntaxError.span? error = some span → position ≤ span.stop → Lost error
  /-- When only the leader stands at its end, it does not matter how it fails. -/
  lost_of_last : last ≠ .stop → ∀ error, Lost error
  /-- A backtick comes only where there can be one. -/
  ticks_of_backtick : ∀ {lexeme rest}, (Astray (.next lexeme rest) ∨
    ∃ stream, Along (.next lexeme rest) stream) → lexeme.kind = .backtick → ticks = true

namespace Simulation

variable {α β γ δ σ τ : Type} {sim : Simulation} {c c' : Cursor} {follower : Option Cursor}

/-! ### Cursors that go along -/

/-- The follower's cursor goes along with the leader's. -/
structure InStep (sim : Simulation) (c c' : Cursor) : Prop where
  /-- The leader's cursor is placed. -/
  placed : c.Placed
  /-- The follower's cursor is placed. -/
  placed' : c'.Placed
  /-- The same end was noted last. -/
  lastEnd_eq : c'.lastEnd = c.lastEnd + sim.shift
  /-- The follower's input is longer by what comes before and after. -/
  size_eq : c'.size = c.size + sim.shift + sim.extra
  /-- What is ahead goes along. -/
  along : sim.Along c.stream c'.stream

/-- The leader's cursor is astray. -/
structure Strays (sim : Simulation) (c : Cursor) : Prop where
  /-- The cursor is placed. -/
  placed : c.Placed
  /-- What is ahead is astray. -/
  astray : sim.Astray c.stream

/-- A leader with a follower, or without one when it is astray. -/
inductive Pair (sim : Simulation) : Cursor → Option Cursor → Prop
  /-- The follower goes along. -/
  | inStep {c c' : Cursor} (h : sim.InStep c c') : Pair sim c (some c')
  /-- Nobody follows. -/
  | astray {c : Cursor} (h : sim.Strays c) : Pair sim c none

theorem Pair.placed (h : sim.Pair c follower) : c.Placed := by
  cases h with
  | inStep h => exact h.placed
  | astray h => exact h.placed

/-- The lexemes on which leader and follower stand. -/
inductive Sees (sim : Simulation) : Lexeme → Lexeme → Prop
  /-- They stand on the same lexeme. -/
  | same {lexeme : Lexeme} (hticks : lexeme.kind = .backtick → sim.ticks = true)
      (hempty : lexeme.kind = .stop → lexeme.text = []) :
    Sees sim lexeme (lexeme.shift sim.shift)
  /-- The leader stands at the end and the follower on a token. -/
  | last {lexeme lexeme' : Lexeme} (hstop : lexeme.kind = .stop) (hlast : sim.last ≠ .stop)
      (hkind : lexeme'.kind = sim.last) (hstart : lexeme'.start = lexeme.start + sim.shift) :
    Sees sim lexeme lexeme'

theorem Sees.start_eq {lexeme lexeme' : Lexeme} (h : sim.Sees lexeme lexeme') :
    lexeme'.start = lexeme.start + sim.shift := by
  cases h with
  | same => rfl
  | last _ _ _ hstart => exact hstart

theorem InStep.sees (h : sim.InStep c c') : sim.Sees c.current c'.current := by
  have halong := h.along
  by_cases hkind : c.current.kind = .stop
  · rw [h.placed.stream_of_stop hkind] at halong
    rw [(h.placed.current_of_stop hkind).1]
    rcases sim.along_finished halong with ⟨-, hstream⟩ |
      ⟨hlast, lexeme, rest, hstream, hkind', hstart⟩
    · -- the follower stands at its own end
      by_cases hkind' : c'.current.kind = .stop
      · rw [h.placed'.stream_of_stop hkind', TokenStream.finished.injEq] at hstream
        rw [(h.placed'.current_of_stop hkind').1, hstream]
        exact .same (by simp [Lexeme.endMarker]) fun _ => rfl
      · simp [stream_of_ne_stop hkind'] at hstream
    · by_cases hkind'' : c'.current.kind = .stop
      · simp [h.placed'.stream_of_stop hkind''] at hstream
      · rw [stream_of_ne_stop hkind'', TokenStream.next.injEq] at hstream
        exact .last rfl hlast (hstream.1 ▸ hkind') (hstream.1 ▸ hstart)
  · rw [stream_of_ne_stop hkind] at halong
    obtain ⟨rest, hstream, -⟩ := sim.along_next halong
    by_cases hkind' : c'.current.kind = .stop
    · simp [h.placed'.stream_of_stop hkind'] at hstream
    · rw [stream_of_ne_stop hkind', TokenStream.next.injEq] at hstream
      rw [hstream.1]
      exact .same (sim.ticks_of_backtick (.inr ⟨_, halong⟩)) fun hstop => absurd hstop hkind

/-- Where the leader stands at its end, the follower stands on the kind for that. -/
theorem InStep.kind_eq_last (h : sim.InStep c c') (hstop : c.current.kind = .stop) :
    c'.current.kind = sim.last := by
  have halong := h.along
  rw [h.placed.stream_of_stop hstop] at halong
  by_cases hstop' : c'.current.kind = .stop
  · rw [h.placed'.stream_of_stop hstop'] at halong
    rcases sim.along_finished halong with ⟨hlast, -⟩ | ⟨-, lexeme, rest, hstream, -⟩
    · rw [hstop', hlast]
    · simp at hstream
  · rw [stream_of_ne_stop hstop'] at halong
    rcases sim.along_finished halong with ⟨-, hstream⟩ | ⟨-, lexeme, rest, hstream, hkind, -⟩
    · simp at hstream
    · rw [TokenStream.next.injEq] at hstream
      rw [hstream.1, hkind]

/-- Kinds that no script ends at are the same for both. -/
theorem Sees.kind_eq_iff {lexeme lexeme' : Lexeme} (h : sim.Sees lexeme lexeme')
    {kind : TokenKind} (hstop : kind ≠ .stop) (hlast : kind ≠ sim.last) :
    lexeme'.kind = kind ↔ lexeme.kind = kind := by
  cases h with
  | same => rfl
  | last hstop' _ hkind _ =>
    rw [hstop', hkind]
    exact iff_of_false (Ne.symm hlast) (Ne.symm hstop)

/-- The follower has so many bytes more left. -/
theorem InStep.left_eq (h : sim.InStep c c') : c'.left = c.left + sim.extra := by
  have hstart := h.sees.start_eq
  have hle := h.placed.start_le_size
  simp only [left, h.size_eq, hstart]
  omega

/-- An error at the lexeme of a leader that is astray does not matter. -/
theorem Strays.lost (h : sim.Strays c) {error : SyntaxError} {span : Span}
    (hspan : error.span? = some span) (hlate : c.current.stop ≤ span.stop) : sim.Lost error := by
  have hastray := h.astray
  by_cases hkind : c.current.kind = .stop
  · rw [h.placed.stream_of_stop hkind] at hastray
    rw [(h.placed.current_of_stop hkind).1] at hlate
    exact sim.lost_of_astray_finished hastray hspan hlate
  · rw [stream_of_ne_stop hkind] at hastray
    exact sim.lost_of_astray_next hastray hspan hlate

/-! ### Outcomes that go along -/

/-- What the follower's production may give when the leader's gives a result. -/
inductive Outcome (sim : Simulation) (f : α → β) : EStateM.Result SyntaxError Cursor α →
    Option (EStateM.Result SyntaxError Cursor β) → Prop
  /-- Both give a value and still go along. -/
  | ok {value : α} {c c' : Cursor} (h : sim.InStep c c') :
    Outcome sim f (.ok value c) (some (.ok (f value) c'))
  /-- Both give the same error. -/
  | error {error : SyntaxError} {c c' : Cursor} :
    Outcome sim f (.error error c) (some (.error (error.shift sim.shift) c'))
  /-- The leader has gone astray. -/
  | astray {value : α} {c : Cursor} {result : Option (EStateM.Result SyntaxError Cursor β)}
      (h : sim.Strays c) : Outcome sim f (.ok value c) result
  /-- The leader gives an error that does not matter. -/
  | lost {error : SyntaxError} {c : Cursor}
      {result : Option (EStateM.Result SyntaxError Cursor β)} (h : sim.Lost error) :
    Outcome sim f (.error error c) result

/-- A leader that nobody follows may as well be followed by anyone. -/
theorem Outcome.of_none {f : α → β} {result : EStateM.Result SyntaxError Cursor α}
    (h : sim.Outcome f result none) (result' : Option (EStateM.Result SyntaxError Cursor β)) :
    sim.Outcome f result result' := by
  cases h with
  | astray h => exact .astray h
  | lost h => exact .lost h

/-- What a production gives where a follower stands, if there is one. -/
def runOn (p : Production α) : Option Cursor → Option (EStateM.Result SyntaxError Cursor α)
  | some c => some (p c)
  | none => none

theorem runOn_eq_some {p : Production α} {result : EStateM.Result SyntaxError Cursor α}
    (h : runOn p follower = some result) : ∃ c', follower = some c' ∧ p c' = result := by
  cases follower with
  | none => simp [runOn] at h
  | some c' => exact ⟨c', rfl, Option.some.inj h⟩

/-- From a leader that stands on a given lexeme, the one production follows the other. -/
def FollowsAt (sim : Simulation) (lexeme : Lexeme) (f : α → β) (p : Production α)
    (p' : Production β) : Prop :=
  ∀ ⦃c follower⦄, c.current = lexeme → sim.Pair c follower →
    sim.Outcome f (p c) (runOn p' follower)

/-- The one production follows the other, and its values are those of the other under a map. -/
def Follows (sim : Simulation) (f : α → β) (p : Production α) (p' : Production β) : Prop :=
  ∀ ⦃c follower⦄, sim.Pair c follower → sim.Outcome f (p c) (runOn p' follower)

variable {f : α → β} {g : γ → δ} {p : Production α} {p' : Production β} {lexeme : Lexeme}

theorem Follows.at (h : sim.Follows f p p') (lexeme : Lexeme) : sim.FollowsAt lexeme f p p' :=
  fun _ _ _ hpair => h hpair

section

variable {error : SyntaxError} {value : α} {d : Cursor}

/-- When the leader fails, the follower fails with the same error. -/
theorem Follows.eq_error (h : sim.Follows f p p') (hstep : sim.InStep c c')
    (herror : p c = .error error d) :
    sim.Lost error ∨ ∃ d', p' c' = .error (error.shift sim.shift) d' := by
  have houtcome := h (.inStep hstep)
  rw [herror] at houtcome
  generalize hresult' : runOn p' (some c') = result' at houtcome
  cases houtcome with
  | error => exact .inr ⟨_, Option.some.inj hresult'⟩
  | lost h => exact .inl h

/-- When the leader succeeds, the follower succeeds with the same value. -/
theorem Follows.eq_ok (h : sim.Follows f p p') (hstep : sim.InStep c c')
    (hok : p c = .ok value d) :
    sim.Strays d ∨ ∃ d', p' c' = .ok (f value) d' ∧ sim.InStep d d' := by
  have houtcome := h (.inStep hstep)
  rw [hok] at houtcome
  generalize hresult' : runOn p' (some c') = result' at houtcome
  cases houtcome with
  | ok h => exact .inr ⟨_, Option.some.inj hresult', h⟩
  | astray h => exact .inl h

/-- When a leader that is astray fails, it does not matter. -/
theorem Follows.lost_of_strays (h : sim.Follows f p p') (hstrays : sim.Strays c)
    (herror : p c = .error error d) : sim.Lost error := by
  have houtcome := h (.astray hstrays)
  rw [herror] at houtcome
  generalize hresult' : runOn p' none = result' at houtcome
  cases houtcome with
  | error => simp [runOn] at hresult'
  | lost h => exact h

end

/-! ### Ways of building productions -/

theorem follows_pure {value : α} {value' : β} (h : value' = f value) :
    sim.Follows f (pure value) (pure value') := by
  intro c follower hpair
  subst h
  cases hpair with
  | inStep h => exact .ok h
  | astray h => exact .astray h

/-- After an error that does not matter nobody need follow. -/
theorem follows_fail_of_lost {error : SyntaxError} (h : sim.Lost error) :
    sim.Follows f (fail error) p' :=
  fun _ _ _ => .lost h

/-- An error at the current lexeme is followed by the same error further on. -/
theorem followsAt_fail {error error' : SyntaxError} {span : Span}
    (hspan : error.span? = some span) (hlate : lexeme.stop ≤ span.stop)
    (herror : sim.last = .stop → error' = error.shift sim.shift) :
    sim.FollowsAt lexeme f (fail error) (fail error') := by
  intro c follower hcurrent hpair
  subst hcurrent
  cases hpair with
  | inStep h =>
    by_cases hlast : sim.last = .stop
    · rw [herror hlast]
      exact .error
    · exact .lost (sim.lost_of_last hlast error)
  | astray h => exact .lost (h.lost hspan hlate)

/-- When the first step fails, so does the whole. -/
theorem Outcome.bind_of_error {next : α → Production γ} {next' : β → Production δ}
    {error : SyntaxError} {d : Cursor} (h : sim.Outcome f (p c) (runOn p' follower))
    (herror : p c = .error error d) :
    sim.Outcome g ((p >>= next) c) (runOn (p' >>= next') follower) := by
  rw [bind_of_eq_error next herror]
  rw [herror] at h
  generalize hresult' : runOn p' follower = result' at h
  cases h with
  | error =>
    obtain ⟨c', rfl, hp'⟩ := runOn_eq_some hresult'
    rw [runOn, bind_of_eq_error next' hp']
    exact .error
  | lost h => exact .lost h

/-- What follows an outcome follows the whole. -/
theorem Outcome.bind {next : α → Production γ} {next' : β → Production δ}
    (h : sim.Outcome f (p c) (runOn p' follower))
    (hnext : ∀ value, sim.Follows g (next value) (next' (f value))) :
    sim.Outcome g ((p >>= next) c) (runOn (p' >>= next') follower) := by
  cases hresult : p c with
  | error error d => exact h.bind_of_error hresult
  | ok value d =>
    rw [bind_of_eq_ok next hresult]
    rw [hresult] at h
    generalize hresult' : runOn p' follower = result' at h
    cases h with
    | ok h =>
      obtain ⟨c', rfl, hp'⟩ := runOn_eq_some hresult'
      rw [runOn, bind_of_eq_ok next' hp']
      exact hnext value (.inStep h)
    | astray h => exact (hnext value (.astray h)).of_none _

theorem FollowsAt.bind {next : α → Production γ} {next' : β → Production δ}
    (hp : sim.FollowsAt lexeme f p p')
    (hnext : ∀ value, sim.Follows g (next value) (next' (f value))) :
    sim.FollowsAt lexeme g (p >>= next) (p' >>= next') :=
  fun _ _ hcurrent hpair => (hp hcurrent hpair).bind hnext

theorem Follows.bind {next : α → Production γ} {next' : β → Production δ}
    (hp : sim.Follows f p p') (hnext : ∀ value, sim.Follows g (next value) (next' (f value))) :
    sim.Follows g (p >>= next) (p' >>= next') :=
  fun _ _ hpair => (hp hpair).bind hnext

theorem Follows.map {h : α → γ} {h' : β → δ} (hp : sim.Follows f p p')
    (hmap : ∀ value, h' (f value) = g (h value)) : sim.Follows g (h <$> p) (h' <$> p') := by
  rw [← bind_pure_comp, ← bind_pure_comp]
  exact hp.bind fun value => follows_pure (hmap value)

/-- A production that looks at the current lexeme is followed when each of its cases is. -/
theorem followsAt_current {next : Lexeme → Production α} {next' : Lexeme → Production β}
    (h : ∀ lexeme', sim.Sees lexeme lexeme' →
      sim.FollowsAt lexeme f (next lexeme) (next' lexeme')) :
    sim.FollowsAt lexeme f (current >>= next) (current >>= next') := by
  intro c follower hcurrent hpair
  subst hcurrent
  cases hpair with
  | inStep hstep => exact h _ hstep.sees rfl (.inStep hstep)
  | astray hstrays =>
    have hticks : c.current.kind = .backtick → sim.ticks = true := by
      intro hkind
      have hastray := hstrays.astray
      rw [stream_of_ne_stop (by simp [hkind])] at hastray
      exact sim.ticks_of_backtick (.inl hastray) hkind
    have hempty : c.current.kind = .stop → c.current.text = [] := by
      intro hkind
      rw [(hstrays.placed.current_of_stop hkind).1]
      rfl
    exact h _ (.same hticks hempty) rfl (.astray hstrays)

theorem follows_current {next : Lexeme → Production α} {next' : Lexeme → Production β}
    (h : ∀ lexeme lexeme', sim.Sees lexeme lexeme' →
      sim.FollowsAt lexeme f (next lexeme) (next' lexeme')) :
    sim.Follows f (current >>= next) (current >>= next') :=
  fun c _ hpair => followsAt_current (h c.current) rfl hpair

/-- Both ask for a kind that no script ends at, and get the same answer. -/
theorem Sees.ite {lexeme lexeme' : Lexeme} (h : sim.Sees lexeme lexeme') {kind : TokenKind}
    (hstop : kind ≠ .stop) (hlast : kind ≠ sim.last) {yes no : Production α}
    {yes' no' : Production β} (hyes : lexeme.kind = kind → sim.FollowsAt lexeme f yes yes')
    (hno : lexeme.kind ≠ kind → sim.FollowsAt lexeme f no no') :
    sim.FollowsAt lexeme f (if lexeme.kind = kind then yes else no)
      (if lexeme'.kind = kind then yes' else no') := by
  have hiff := h.kind_eq_iff hstop hlast
  by_cases hkind : lexeme.kind = kind
  · rw [if_pos hkind, if_pos (hiff.2 hkind)]
    exact hyes hkind
  · rw [if_neg hkind, if_neg (mt hiff.1 hkind)]
    exact hno hkind

theorem follows_lastEnd {next : Nat → Production α} {next' : Nat → Production β}
    (h : ∀ position, sim.Follows f (next position) (next' (position + sim.shift))) :
    sim.Follows f (lastEnd >>= next) (lastEnd >>= next') := by
  intro c follower hpair
  cases hpair with
  | inStep hstep =>
    have hfollows := h c.lastEnd (.inStep hstep)
    rw [← hstep.lastEnd_eq] at hfollows
    exact hfollows
  | astray hstrays => exact h c.lastEnd (.astray hstrays)

/-! ### Moving -/

/-- After the current lexeme the streams go on alike. -/
theorem stream_of_take {lexeme : Lexeme} {d : Cursor} (hc : c.Placed)
    (hkind : c.current.kind ≠ .stop) (htake : take c = .ok lexeme d) : d.stream = c.ahead := by
  have hstream := (leaves_of_take hc hkind htake).stream_eq
  rw [stream_of_ne_stop hkind, TokenStream.next.injEq] at hstream
  exact hstream.2.symm

theorem ahead_ne_failed_of_take {d : Cursor} (h : take c = .ok lexeme d) (error : ScanError) :
    c.ahead ≠ .failed error := by
  intro hahead
  rw [take_apply, hahead] at h
  simp at h

/-- Before the end both stand on the same lexeme, and the streams ahead go on or fail alike. -/
theorem InStep.ahead (h : sim.InStep c c') (hkind : c.current.kind ≠ .stop) :
    c'.current = c.current.shift sim.shift ∧
      (∀ error, c.ahead = .failed error →
        sim.Lost (.scan error) ∨ c'.ahead = .failed (error.shift sim.shift)) ∧
      ((∀ error, c.ahead ≠ .failed error) →
        (∀ error, c'.ahead ≠ .failed error) ∧
          (sim.Along c.ahead c'.ahead ∨ sim.Astray c.ahead)) := by
  have halong := h.along
  rw [stream_of_ne_stop hkind] at halong
  obtain ⟨rest, hstream, hgoes⟩ := sim.along_next halong
  have hkind' : c'.current.kind ≠ .stop := fun hkind' => by
    simp [h.placed'.stream_of_stop hkind'] at hstream
  rw [stream_of_ne_stop hkind', TokenStream.next.injEq] at hstream
  obtain ⟨hcurrent, rfl⟩ := hstream
  exact ⟨hcurrent, hgoes⟩

/-- When the leader takes a lexeme, so does the follower. -/
theorem InStep.take_ok (h : sim.InStep c c') (hkind : c.current.kind ≠ .stop) {d : Cursor}
    (htake : take c = .ok lexeme d) :
    ∃ d', take c' = .ok (lexeme.shift sim.shift) d' ∧ (sim.InStep d d' ∨ sim.Strays d) := by
  obtain ⟨hcurrent, -, hgoes⟩ := h.ahead hkind
  obtain ⟨hfails', hgoes⟩ := hgoes (ahead_ne_failed_of_take htake)
  have hkind' : c'.current.kind ≠ .stop := by rwa [hcurrent, Lexeme.kind_shift]
  have hleaves := leaves_of_take h.placed hkind htake
  obtain rfl := (take_eq_ok htake).1
  cases htake' : take c' with
  | error error d' =>
    obtain ⟨-, scanError, -, hahead⟩ := take_eq_error htake'
    exact absurd hahead (hfails' scanError)
  | ok lexeme' d' =>
    have hleaves' := leaves_of_take h.placed' hkind' htake'
    obtain rfl := (take_eq_ok htake').1
    refine ⟨d', by rw [hcurrent], ?_⟩
    rw [← stream_of_take h.placed hkind htake, ← stream_of_take h.placed' hkind' htake'] at hgoes
    refine hgoes.imp (fun halong => ?_) (fun hastray => ⟨hleaves.placed, hastray⟩)
    refine ⟨hleaves.placed, hleaves'.placed, ?_, ?_, halong⟩
    · rw [hleaves'.lastEnd_eq, hleaves.lastEnd_eq, hcurrent, Lexeme.kind_shift,
        Lexeme.stop_shift, h.lastEnd_eq]
      split <;> rfl
    · rw [hleaves'.size_eq, hleaves.size_eq, h.size_eq]

theorem followsAt_take (hkind : lexeme.kind ≠ .stop) :
    sim.FollowsAt lexeme (Lexeme.shift sim.shift) take take := by
  intro c follower hcurrent hpair
  subst hcurrent
  have hplaced := hpair.placed
  cases htake : take c with
  | ok lexeme d =>
    cases hpair with
    | inStep h =>
      obtain ⟨d', htake', hstep | hstrays⟩ := h.take_ok hkind htake
      · rw [runOn, htake']
        exact .ok hstep
      · exact .astray hstrays
    | astray h =>
      have hastray := h.astray
      rw [stream_of_ne_stop hkind] at hastray
      refine .astray ⟨(leaves_of_take hplaced hkind htake).placed, ?_⟩
      rw [stream_of_take hplaced hkind htake]
      exact (sim.astray_next hastray).2 (ahead_ne_failed_of_take htake)
  | error error d =>
    obtain ⟨-, scanError, rfl, hahead⟩ := take_eq_error htake
    cases hpair with
    | inStep h =>
      rcases (h.ahead hkind).2.1 scanError hahead with hlost | hahead'
      · exact .lost hlost
      · rw [runOn, take_apply, hahead']
        exact .error
    | astray h =>
      have hastray := h.astray
      rw [stream_of_ne_stop hkind] at hastray
      exact .lost ((sim.astray_next hastray).1 scanError hahead)

theorem follows_accept {kind : TokenKind} (hstop : kind ≠ .stop) (hlast : kind ≠ sim.last) :
    sim.Follows id (accept kind) (accept kind) := by
  refine follows_current fun lexeme lexeme' hsees => hsees.ite hstop hlast ?_ ?_
  · exact fun hkind => (followsAt_take (hkind ▸ hstop)).bind fun _ => follows_pure rfl
  · exact fun _ => (follows_pure rfl).at lexeme

theorem follows_require {kind : TokenKind} (hstop : kind ≠ .stop) :
    sim.Follows (Lexeme.shift sim.shift) (require kind) (require kind) := by
  refine follows_current fun lexeme lexeme' hsees => ?_
  cases hsees with
  | same =>
    by_cases hkind : lexeme.kind = kind
    · rw [if_pos hkind, Lexeme.kind_shift, if_pos hkind]
      exact followsAt_take (hkind ▸ hstop)
    · rw [if_neg hkind, Lexeme.kind_shift, if_neg hkind]
      refine followsAt_fail rfl (Nat.le_refl _) fun _ => ?_
      rw [Lexeme.span_shift]
      rfl
  | last hstop' hlast _ _ =>
    rw [hstop', if_neg (Ne.symm hstop)]
    exact (follows_fail_of_lost (sim.lost_of_last hlast _)).at _

/-- After a lexeme has been taken, an error at that lexeme is followed by the same error. -/
theorem follows_require_fail {kind : TokenKind} (hstop : kind ≠ .stop)
    {error error' : Lexeme → SyntaxError}
    (hspan : ∀ lexeme, (error lexeme).span? = some lexeme.span)
    (herror : ∀ lexeme, error' (lexeme.shift sim.shift) = (error lexeme).shift sim.shift) :
    sim.Follows f (require kind >>= fun lexeme => fail (error lexeme))
      (require kind >>= fun lexeme => fail (error' lexeme)) := by
  intro c follower hpair
  cases hrequire : require kind c with
  | error _ _ => exact (follows_require hstop hpair).bind_of_error hrequire
  | ok lexeme d =>
    obtain ⟨hkind, rfl, -⟩ := (require_eq_ok_iff hstop).1 hrequire
    rw [bind_of_eq_ok _ hrequire]
    cases hpair with
    | @inStep c' h =>
      have htake : take c = .ok c.current d := by rwa [require_of_kind_eq hkind] at hrequire
      obtain ⟨d', htake', -⟩ := h.take_ok (hkind ▸ hstop) htake
      have hrequire' : require kind c' = .ok (c.current.shift sim.shift) d' := by
        rw [require_of_kind_eq, htake']
        rw [(h.ahead (hkind ▸ hstop)).1, Lexeme.kind_shift, hkind]
      rw [runOn, bind_of_eq_ok _ hrequire', herror]
      exact .error
    | astray h => exact .lost (h.lost (hspan _) (Nat.le_refl _))

/-! ### Repetition -/

/-- A step of a loop with another state. -/
def mapStep (f : σ → τ) : ForInStep σ → ForInStep τ
  | .done state => .done (f state)
  | .yield state => .yield (f state)

/-- A loop follows a loop when its rounds follow the other's rounds. -/
theorem follows_loop {f : σ → τ} {round : σ → Production (ForInStep σ)}
    {round' : τ → Production (ForInStep τ)}
    (hround : ∀ state, sim.Follows (mapStep f) (round state) (round' (f state))) (state : σ) :
    sim.Follows f (loop round state) (loop round' (f state)) := by
  intro c follower hpair
  induction hn : c.left using Nat.strongRecOn generalizing state c follower with
  | ind n ih =>
    subst hn
    have houtcome := hround state hpair
    generalize hresult : round state c = result at houtcome
    generalize hresult' : runOn (round' (f state)) follower = result' at houtcome
    cases houtcome with
    | @ok value d d' hstep =>
      obtain ⟨c', rfl, hround'⟩ := runOn_eq_some hresult'
      change sim.Outcome f _ (some (loop round' (f state) c'))
      cases hpair with
      | inStep hstep₀ =>
        cases value with
        | done state₁ =>
          rw [loop_of_done hresult, loop_of_done hround']
          exact .ok hstep
        | yield state₁ =>
          -- both go on or both stop, since the follower always has the same number more left
          have hleft : d'.left < c'.left ↔ d.left < c.left := by
            rw [hstep.left_eq, hstep₀.left_eq]
            omega
          by_cases hlt : d.left < c.left
          · rw [loop_of_yield hresult hlt, loop_of_yield hround' (hleft.2 hlt)]
            exact ih _ hlt state₁ (.inStep hstep) rfl
          · rw [loop, hresult, loop, hround']
            simp only [mapStep, if_neg hlt, if_neg (mt hleft.1 hlt)]
            exact .ok hstep
    | error =>
      obtain ⟨c', rfl, hround'⟩ := runOn_eq_some hresult'
      change sim.Outcome f _ (some (loop round' (f state) c'))
      rw [loop_of_error hresult, loop_of_error hround']
      exact .error
    | @astray value d _ hstrays =>
      cases value with
      | done state₁ =>
        rw [loop_of_done hresult]
        exact .astray hstrays
      | yield state₁ =>
        by_cases hlt : d.left < c.left
        · rw [loop_of_yield hresult hlt]
          exact (ih _ hlt state₁ (.astray hstrays) rfl).of_none _
        · rw [loop, hresult]
          simp only [if_neg hlt]
          exact .astray hstrays
    | lost hlost =>
      rw [loop_of_error hresult]
      exact .lost hlost

/-! ### Inside of something that has to be closed -/

/-- The simulation inside of something that has to be closed. There a leader that comes to the
end alone is astray: it will miss what closes. -/
def closed (sim : Simulation) : Simulation where
  shift := sim.shift
  extra := sim.extra
  last := .stop
  ticks := sim.ticks
  Along stream stream' := sim.Along stream stream' ∧
    (sim.last = .stop ∨ ∀ position, stream ≠ .finished position)
  Astray stream := sim.Astray stream ∨
    sim.last ≠ .stop ∧ ∃ position, stream = .finished position
  Lost := sim.Lost
  stops_last := stops_stop
  along_next := by
    intro lexeme rest stream halong
    obtain ⟨rest', hstream, hfails, hgoes⟩ := sim.along_next halong.1
    refine ⟨rest', hstream, hfails, fun hrest => ?_⟩
    obtain ⟨hrest', hgoes⟩ := hgoes hrest
    refine ⟨hrest', ?_⟩
    by_cases hlast : sim.last = .stop
    · exact hgoes.imp (fun halong => ⟨halong, .inl hlast⟩) .inl
    · by_cases hfinished : ∃ position, rest = .finished position
      · exact .inr (.inr ⟨hlast, hfinished⟩)
      · have hne : ∀ position, rest ≠ .finished position :=
          fun position heq => hfinished ⟨position, heq⟩
        exact hgoes.imp (fun halong => ⟨halong, .inr hne⟩) .inl
  along_finished := by
    intro position stream halong
    rcases sim.along_finished halong.1 with ⟨-, hstream⟩ | ⟨hlast, -⟩
    · exact .inl ⟨rfl, hstream⟩
    · rcases halong.2 with hstop | hne
      · exact absurd hstop hlast
      · exact absurd rfl (hne position)
  astray_next := by
    intro lexeme rest hastray
    rcases hastray with hastray | ⟨-, position, heq⟩
    · exact ⟨(sim.astray_next hastray).1, fun hrest => .inl ((sim.astray_next hastray).2 hrest)⟩
    · simp at heq
  lost_of_astray_next := by
    intro lexeme rest error span hastray hspan hlate
    rcases hastray with hastray | ⟨-, position, heq⟩
    · exact sim.lost_of_astray_next hastray hspan hlate
    · simp at heq
  lost_of_astray_finished := by
    intro position error span hastray hspan hlate
    rcases hastray with hastray | ⟨hlast, -⟩
    · exact sim.lost_of_astray_finished hastray hspan hlate
    · exact sim.lost_of_last hlast error
  lost_of_last := fun hlast => absurd rfl hlast
  ticks_of_backtick := by
    intro lexeme rest h
    refine @ticks_of_backtick sim lexeme rest ?_
    rcases h with (hastray | ⟨-, position, heq⟩) | ⟨stream, halong, -⟩
    · exact .inl hastray
    · simp at heq
    · exact .inr ⟨stream, halong⟩

/-- Who goes along outside goes along inside as well, but for a leader that stands at its end
alone. -/
theorem Pair.closed (h : sim.Pair c follower) :
    sim.closed.Pair c follower ∨ sim.closed.Pair c none := by
  cases h with
  | inStep h =>
    by_cases halone : sim.last ≠ .stop ∧ ∃ position, c.stream = .finished position
    · exact .inr (.astray ⟨h.placed, .inr halone⟩)
    · have hend : sim.last = .stop ∨ ∀ position, c.stream ≠ .finished position := by
        by_cases hlast : sim.last = .stop
        · exact .inl hlast
        · exact .inr fun position heq => halone ⟨hlast, position, heq⟩
      exact .inl (.inStep ⟨h.placed, h.placed', h.lastEnd_eq, h.size_eq, h.along, hend⟩)
  | astray h => exact .inl (.astray ⟨h.placed, .inl h.astray⟩)

/-- What follows inside, in front of something that does not stand at the end, follows. -/
theorem Follows.enclosed {next : α → Production γ} {next' : β → Production δ}
    (hp : sim.closed.Follows f p p')
    (hnext : ∀ value, sim.Follows g (next value) (next' (f value)))
    (hend : ∀ value d, d.current.kind = .stop → ∃ error d', next value d = .error error d') :
    sim.Follows g (p >>= next) (p' >>= next') := by
  intro c follower hpair
  have houtcome : sim.closed.Outcome f (p c) (runOn p' follower) := by
    rcases hpair.closed with hclosed | hclosed
    · exact hp hclosed
    · exact (hp hclosed).of_none _
  cases hresult : p c with
  | error error d =>
    have houtcome : sim.Outcome f (p c) (runOn p' follower) := by
      rw [hresult] at houtcome ⊢
      generalize runOn p' follower = result' at houtcome
      cases houtcome with
      | error => exact .error
      | lost hlost => exact .lost hlost
    exact houtcome.bind_of_error hresult
  | ok value d =>
    rw [bind_of_eq_ok next hresult]
    rw [hresult] at houtcome
    generalize hresult' : runOn p' follower = result' at houtcome
    cases houtcome with
    | ok hstep =>
      obtain ⟨c', rfl, hp'⟩ := runOn_eq_some hresult'
      rw [runOn, bind_of_eq_ok next' hp']
      exact hnext value (.inStep ⟨hstep.placed, hstep.placed', hstep.lastEnd_eq, hstep.size_eq,
        hstep.along.1⟩)
    | astray hstrays =>
      rcases hstrays.astray with hastray | ⟨hlast, position, hstream⟩
      · exact (hnext value (.astray ⟨hstrays.placed, hastray⟩)).of_none _
      · -- the leader stands at its end, and fails there
        have hkind : d.current.kind = .stop := by
          by_cases hkind : d.current.kind = .stop
          · exact hkind
          · simp [stream_of_ne_stop hkind] at hstream
        obtain ⟨error, d', hnext'⟩ := hend value d hkind
        rw [hnext']
        exact .lost (sim.lost_of_last hlast error)

end Simulation

end CommandSyntax
