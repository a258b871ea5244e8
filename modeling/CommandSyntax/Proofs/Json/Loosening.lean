import CommandSyntax.Proofs.Json.Members
import Mathlib.Data.List.Forall2
import Mathlib.Data.List.Nodup

/-!
# CommandSyntax.Proofs.Json.Loosening

**JSON that is written more loosely** (`Json.Loosens`): the members of a record come in another
order, there are members that nobody asks for, and a word that is absent is not mentioned. An object
with a single member says by the name of that member which form a value has, and has no others.

A looser record still holds the values of all members (`Json.Loosens.exists_holds`): it has a looser
value under the same name, or the value was null and is left out. What is read from a member is
therefore read from a looser record, too.
-/

namespace CommandSyntax

namespace Json

/-- The fields that may be left out when they are null. -/
def omissible : List String := ["value", "input_file", "output_file", "append_file"]

/-- The members of a record, in order, with looser values, and without some that are null. -/
inductive Keeps (loosens : Json → Json → Prop) :
    List (String × Json) → List (String × Json) → Prop
  /-- There are no members. -/
  | nil : Keeps loosens [] []
  /-- A member is kept, with a looser value. -/
  | keep {name : String} {value loose : Json} {members kept : List (String × Json)} :
    loosens value loose → Keeps loosens members kept →
      Keeps loosens ((name, value) :: members) ((name, loose) :: kept)
  /-- A member that is null is left out. -/
  | drop {name : String} {members kept : List (String × Json)} :
    name ∈ omissible → Keeps loosens members kept → Keeps loosens ((name, null) :: members) kept

/-- A value and one that is written more loosely. -/
inductive Loosens : Json → Json → Prop
  /-- A value may be as it is. -/
  | same (json : Json) : Loosens json json
  /-- The items of an array may be looser. -/
  | items {items loose : List Json} : List.Forall₂ Loosens items loose →
    Loosens (array items) (array loose)
  /-- The content of a form may be looser. -/
  | form {name : String} {content loose : Json} : Loosens content loose →
    Loosens (object [(name, content)]) (object [(name, loose)])
  /-- A record may have its members looser, others among them, and all in any order. -/
  | record {members kept extra loose : List (String × Json)} : members.length ≠ 1 →
    Keeps Loosens members kept → (∀ member ∈ extra, member.1 ∉ members.map Prod.fst) →
    loose.Perm (kept ++ extra) → Loosens (object members) (object loose)

theorem Loosens.of_perm {members kept loose : List (String × Json)} (hlength : members.length ≠ 1)
    (hkeeps : Keeps Loosens members kept) (hperm : loose.Perm kept) :
    Loosens (object members) (object loose) := by
  refine .record hlength hkeeps (List.forall_mem_nil _) ?_
  rwa [List.append_nil]

/-! ### Members of looser records -/

/-- A looser record holds the value of a member: it has a looser one under the same name, or the
value is null and there is none. -/
def Holds (loose : List (String × Json)) (name : String) (value : Json) : Prop :=
  (∃ found, Loosens value found ∧ loose.lookup name = some found) ∨
    value = null ∧ loose.lookup name = none

theorem lookup_eq_some {members : List (String × Json)} {name : String} {value : Json}
    (hmem : (name, value) ∈ members) (hunique : ∀ other, (name, other) ∈ members → other = value) :
    members.lookup name = some value := by
  cases hlookup : members.lookup name with
  | none =>
    have hname := List.lookup_eq_none_iff.1 hlookup _ hmem
    simp at hname
  | some other =>
    obtain ⟨before, after, rfl, -⟩ := List.lookup_eq_some_iff.1 hlookup
    rw [hunique other (by simp)]

theorem Keeps.sublist {loosens : Json → Json → Prop} {members kept : List (String × Json)}
    (h : Keeps loosens members kept) : (kept.map Prod.fst).Sublist (members.map Prod.fst) := by
  induction h with
  | nil => exact .slnil
  | keep _ _ ih => exact ih.cons_cons _
  | drop _ _ ih => exact ih.cons _

theorem Keeps.exists_mem {loosens : Json → Json → Prop} {members kept : List (String × Json)}
    (h : Keeps loosens members kept) (hnodup : (members.map Prod.fst).Nodup) {name : String}
    {value : Json} (hmem : (name, value) ∈ members) :
    (∃ loose, loosens value loose ∧ (name, loose) ∈ kept) ∨
      value = null ∧ name ∉ kept.map Prod.fst := by
  induction h with
  | nil => simp at hmem
  | @keep other _ loose members kept hloose hkept ih =>
    obtain ⟨hother, hnodup⟩ := List.nodup_cons.1 hnodup
    obtain heq | hrest := List.mem_cons.1 hmem
    · obtain ⟨rfl, rfl⟩ := Prod.mk.inj heq
      exact .inl ⟨loose, hloose, List.mem_cons_self⟩
    · have hname : name ≠ other := ne_of_mem_of_not_mem (List.mem_map_of_mem hrest) hother
      obtain ⟨found, hfound, hfoundk⟩ | ⟨hnull, habsent⟩ := ih hnodup hrest
      · exact .inl ⟨found, hfound, List.mem_cons_of_mem _ hfoundk⟩
      · exact .inr ⟨hnull, fun hk => habsent (List.mem_of_ne_of_mem hname hk)⟩
  | drop _ hkept ih =>
    obtain ⟨hother, hnodup⟩ := List.nodup_cons.1 hnodup
    obtain heq | hrest := List.mem_cons.1 hmem
    · obtain ⟨rfl, rfl⟩ := Prod.mk.inj heq
      exact .inr ⟨rfl, fun hk => hother (hkept.sublist.subset hk)⟩
    · exact ih hnodup hrest

/-- A looser record is an object that holds the values of all members. -/
theorem Loosens.exists_holds {members : List (String × Json)} {json : Json}
    (h : Loosens (object members) json) (hlength : members.length ≠ 1)
    (hnodup : (members.map Prod.fst).Nodup) :
    ∃ loose, json = object loose ∧ ∀ member ∈ members, Holds loose member.1 member.2 := by
  cases h with
  | same =>
    refine ⟨members, rfl, fun ⟨name, value⟩ hmem => .inl ⟨value, .same value, ?_⟩⟩
    refine lookup_eq_some hmem fun other hother => ?_
    exact (Prod.mk.inj (List.inj_on_of_nodup_map hnodup hother hmem rfl)).2
  | form => exact absurd rfl hlength
  | @record _ kept extra loose _ hkept hextra hperm =>
    refine ⟨loose, rfl, fun ⟨name, value⟩ hmem => ?_⟩
    have hname : name ∈ members.map Prod.fst := List.mem_map_of_mem hmem
    have hmem_iff (other : Json) : (name, other) ∈ loose ↔ (name, other) ∈ kept := by
      rw [hperm.mem_iff, List.mem_append, or_iff_left]
      exact fun hother => hextra _ hother hname
    obtain ⟨found, hfound, hmemk⟩ | ⟨hnull, habsent⟩ := hkept.exists_mem hnodup hmem
    · refine .inl ⟨found, hfound, lookup_eq_some ((hmem_iff found).2 hmemk) fun other hother => ?_⟩
      have hkeys := hnodup.sublist hkept.sublist
      exact (Prod.mk.inj (List.inj_on_of_nodup_map hkeys ((hmem_iff other).1 hother) hmemk rfl)).2
    · refine .inr ⟨hnull, List.lookup_eq_none_iff.2 fun ⟨other, content⟩ hother => ?_⟩
      rw [bne_iff_ne]
      rintro rfl
      exact habsent (List.mem_map_of_mem ((hmem_iff content).1 hother))

theorem Loosens.exists_array {items : List Json} {json : Json} (h : Loosens (array items) json) :
    ∃ loose, json = array loose ∧ List.Forall₂ Loosens items loose := by
  cases h with
  | same => exact ⟨items, rfl, List.forall₂_same.2 fun item _ => .same item⟩
  | items hitems => exact ⟨_, rfl, hitems⟩

theorem Loosens.exists_form {name : String} {content json : Json}
    (h : Loosens (object [(name, content)]) json) :
    ∃ loose, json = object [(name, loose)] ∧ Loosens content loose := by
  cases h with
  | same => exact ⟨content, rfl, .same content⟩
  | form hcontent => exact ⟨_, rfl, hcontent⟩
  | record hlength => exact absurd rfl hlength

/-! ### Reading what is held -/

variable {α : Type} {read : Json → Option α} {loose : List (String × Json)} {name : String}
  {value : Json}

/-- What reads all looser values of a value, but not null, reads it from a looser record. -/
theorem Holds.exists_lookup {result : α} (h : Holds loose name value) (hnull : read null = none)
    (hread : ∀ found, Loosens value found → read found = some result) :
    ∃ found, loose.lookup name = some found ∧ found.isNull = false ∧ read found = some result := by
  obtain ⟨found, hfound, hlookup⟩ | ⟨rfl, -⟩ := h
  · refine ⟨found, hlookup, ?_, hread found hfound⟩
    cases found with
    | null => exact absurd (hread null hfound) (by simp [hnull])
    | _ => rfl
  · exact absurd (hread null (.same null)) (by simp [hnull])

theorem Holds.bind_eq_some {result : α} (h : Holds loose name value) (hnull : read null = none)
    (hread : ∀ found, Loosens value found → read found = some result) :
    (loose.lookup name).bind read = some result := by
  obtain ⟨found, hlookup, -, hresult⟩ := h.exists_lookup hnull hread
  rw [hlookup, Option.bind_some, hresult]

theorem Holds.elim_eq_some {written : Option α} {write : α → Json}
    (h : Holds loose name (written.elim null write)) (hnull : read null = none)
    (hread : ∀ value ∈ written, ∀ found, Loosens (write value) found → read found = some value) :
    (loose.lookup name).elim (some none) (nullable? read) = some written := by
  cases written with
  | none =>
    obtain ⟨found, hfound, hlookup⟩ | ⟨-, hlookup⟩ := h
    · cases hfound
      rw [hlookup]
      rfl
    · rw [hlookup]
      rfl
  | some value =>
    obtain ⟨found, hlookup, hfull, hresult⟩ := h.exists_lookup hnull (hread value rfl)
    rw [hlookup, Option.elim_some, nullable?, hfull, hresult]
    rfl

/-- Items that are read from all their looser values are read from looser arrays. -/
theorem Loosens.list?_eq_some {items : List α} {write : α → Json} {json : Json}
    (h : Loosens (array (items.map write)) json)
    (hread : ∀ item ∈ items, ∀ found, Loosens (write item) found → read found = some item) :
    list? read json = some items := by
  obtain ⟨loose, rfl, hitems⟩ := h.exists_array
  rw [List.forall₂_map_left_iff] at hitems
  show loose.mapM read = some items
  clear h
  induction hitems with
  | nil => rfl
  | cons hitem _ ih =>
    obtain ⟨hfirst, hrest⟩ := List.forall_mem_cons.1 hread
    rw [List.mapM_cons, hfirst _ hitem, ih hrest]
    rfl

end Json

end CommandSyntax
