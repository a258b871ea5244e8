import CommandSyntax.Proofs.Json.Loosening
import CommandSyntax.Proofs.Script.Nodes

/-!
# CommandSyntax.Proofs.Json.RoundTrip

**A tree is read back from its JSON, also from a looser one** (`Script.ofJson?_of_loosens`), if the
offsets of its spans can be written. A node survives when those below it do (`Node.survives`), since
each field of its record is read from whatever looser value is held for it.
-/

namespace CommandSyntax

open Json

/-! ### Spans -/

/-- The offsets of a span can be written. -/
def Span.Fits (span : Span) : Prop := span.start < offsetBound ∧ span.stop < offsetBound

theorem Json.offset?_of_lt {offset : Nat} (h : offset < offsetBound) {json : Json}
    (hjson : Loosens (.integer offset) json) : json.offset? = some offset := by
  cases hjson
  rw [offset?, if_pos ⟨Int.natCast_nonneg offset, Int.ofNat_lt.2 h⟩, Int.toNat_natCast]

theorem Span.Fits.survives {span : Span} (h : span.Fits) (json : Json)
    (hjson : Loosens span.toJson json) : Span.ofJson? json = some span := by
  obtain ⟨loose, rfl, hholds⟩ := hjson.exists_holds (by simp) (by simp)
  simp only [List.forall_mem_cons] at hholds
  obtain ⟨hstart, hstop, -⟩ := hholds
  rw [Span.ofJson?_object, hstart.bind_eq_some rfl fun _ => offset?_of_lt h.1,
    hstop.bind_eq_some rfl fun _ => offset?_of_lt h.2]
  rfl

/-! ### Nodes -/

namespace Node

/-- A node is read back from its JSON, also from a looser one. -/
def Survives : Node → Prop
  | script s => ∀ json, Loosens s.toJson json → Script.ofJson? json = some s
  | statement s => ∀ json, Loosens s.toJson json → Statement.ofJson? json = some s
  | pipeline p => ∀ json, Loosens p.toJson json → Pipeline.ofJson? json = some p
  | command c => ∀ json, Loosens c.toJson json → Command.ofJson? json = some c
  | assignment a => ∀ json, Loosens a.toJson json → Assignment.ofJson? json = some a
  | word w => ∀ json, Loosens w.toJson json → Word.ofJson? json = some w
  | part p => ∀ json, Loosens p.toJson json → Part.ofJson? json = some p
  | glob g => ∀ json, Loosens g.toJson json → Glob.ofJson? json = some g
  | substitution body => ∀ json, Loosens body.toJson json → Script.ofJson? json = some body

theorem survives_glob (g : Glob) : (glob g).Survives := by
  intro json hjson
  cases g with
  | charset set =>
    obtain ⟨loose, rfl, hset⟩ := hjson.exists_form
    cases hset
    rfl
  | _ =>
    cases hjson
    rfl

theorem survives_part {p : Part} (h : ∀ child ∈ (part p).children, child.Survives) :
    (part p).Survives := by
  intro json hjson
  cases p with
  | glob pattern =>
    rw [Part.toJson] at hjson
    obtain ⟨loose, rfl, hloose⟩ := hjson.exists_form
    have hglob : Glob.ofJson? loose = some pattern := h (glob pattern) (by simp [children]) _ hloose
    rw [Part.ofJson?]
    show (Glob.ofJson? loose).map Part.glob = _
    rw [hglob, Option.map_some]
  | substitution body =>
    rw [Part.toJson] at hjson
    obtain ⟨loose, rfl, hloose⟩ := hjson.exists_form
    have hbody : Script.ofJson? loose = some body :=
      h (substitution body) (by simp [children]) _ hloose
    rw [Part.ofJson?]
    show (Script.ofJson? loose).map Part.substitution = _
    rw [hbody, Option.map_some]
  | _ =>
    rw [Part.toJson] at hjson
    obtain ⟨loose, rfl, hloose⟩ := hjson.exists_form
    cases hloose
    rw [Part.ofJson?]
    rfl

theorem survives_word {w : Word} (hspan : w.span.Fits)
    (hparts : ∀ p ∈ w.parts, (part p).Survives) : (word w).Survives := by
  intro json hjson
  rw [Word.toJson_eq] at hjson
  obtain ⟨loose, rfl, hholds⟩ := hjson.exists_holds (by simp) (by simp)
  simp only [List.forall_mem_cons] at hholds
  obtain ⟨hpartsJson, hspanJson, -⟩ := hholds
  rw [Word.ofJson?_object, hpartsJson.bind_eq_some rfl fun _ h => h.list?_eq_some hparts,
    hspanJson.bind_eq_some rfl hspan.survives]
  cases w
  rfl

theorem word_ofJson?_null : Word.ofJson? .null = none := by
  rw [Word.ofJson?]
  rfl

theorem pipeline_ofJson?_null : Pipeline.ofJson? .null = none := by
  rw [Pipeline.ofJson?]
  rfl

theorem survives_assignment {a : Assignment} (hspan : a.span.Fits)
    (hvalue : ∀ w ∈ a.value, (word w).Survives) : (assignment a).Survives := by
  intro json hjson
  rw [Assignment.toJson_eq] at hjson
  obtain ⟨loose, rfl, hholds⟩ := hjson.exists_holds (by simp) (by simp)
  simp only [List.forall_mem_cons] at hholds
  obtain ⟨hnameJson, hvalueJson, hspanJson, -⟩ := hholds
  have hname (found : Json) (h : Loosens (.string a.name) found) : found.string? = some a.name := by
    cases h
    rfl
  rw [Assignment.ofJson?_object, hnameJson.bind_eq_some rfl hname,
    hvalueJson.elim_eq_some word_ofJson?_null hvalue, hspanJson.bind_eq_some rfl hspan.survives]
  cases a
  rfl

theorem survives_command {c : Command} (hspan : c.span.Fits)
    (hassignments : ∀ a ∈ c.assignments, (assignment a).Survives)
    (hwords : ∀ w ∈ c.arguments ++ c.targets, (word w).Survives) : (command c).Survives := by
  intro json hjson
  rw [Command.toJson_eq] at hjson
  obtain ⟨loose, rfl, hholds⟩ := hjson.exists_holds (by simp) (by simp)
  simp only [List.forall_mem_cons] at hholds
  obtain ⟨hassignmentsJson, hargumentsJson, hinputJson, houtputJson, happendJson, hspanJson, -⟩ :=
    hholds
  simp only [Command.targets, List.forall_mem_append, Option.mem_toList] at hwords
  obtain ⟨harguments, ⟨hinput, houtput⟩, happend⟩ := hwords
  rw [Command.ofJson?_object,
    hassignmentsJson.bind_eq_some rfl fun _ h => h.list?_eq_some hassignments,
    hargumentsJson.bind_eq_some rfl fun _ h => h.list?_eq_some harguments,
    hinputJson.elim_eq_some word_ofJson?_null hinput,
    houtputJson.elim_eq_some word_ofJson?_null houtput,
    happendJson.elim_eq_some word_ofJson?_null happend,
    hspanJson.bind_eq_some rfl hspan.survives]
  cases c
  rfl

theorem survives_pipeline {p : Pipeline} (hspan : p.span.Fits)
    (hcommands : ∀ c ∈ p.commands, (command c).Survives) : (pipeline p).Survives := by
  intro json hjson
  rw [Pipeline.toJson_eq] at hjson
  obtain ⟨loose, rfl, hholds⟩ := hjson.exists_holds (by simp) (by simp)
  simp only [List.forall_mem_cons] at hholds
  obtain ⟨hcommandsJson, hspanJson, -⟩ := hholds
  rw [Pipeline.ofJson?_object,
    hcommandsJson.bind_eq_some rfl fun _ h => h.list?_eq_some hcommands,
    hspanJson.bind_eq_some rfl hspan.survives]
  cases p
  rfl

theorem survives_statement {s : Statement} (hspan : s.span.Fits)
    (hpipeline : (pipeline s.pipeline).Survives) : (statement s).Survives := by
  intro json hjson
  rw [Statement.toJson_eq] at hjson
  obtain ⟨loose, rfl, hholds⟩ := hjson.exists_holds (by simp) (by simp)
  simp only [List.forall_mem_cons] at hholds
  obtain ⟨hpipelineJson, hbackgroundJson, hspanJson, -⟩ := hholds
  have hbackground (found : Json) (h : Loosens (.bool s.background) found) :
      found.bool? = some s.background := by
    cases h
    rfl
  rw [Statement.ofJson?_object,
    hpipelineJson.bind_eq_some pipeline_ofJson?_null hpipeline,
    hbackgroundJson.bind_eq_some rfl hbackground,
    hspanJson.bind_eq_some rfl hspan.survives]
  cases s
  rfl

theorem survives_script {s : Script} (hspan : s.span.Fits)
    (hstatements : ∀ t ∈ s.statements, (statement t).Survives) : (script s).Survives := by
  intro json hjson
  rw [Script.toJson_eq] at hjson
  obtain ⟨loose, rfl, hholds⟩ := hjson.exists_holds (by simp) (by simp)
  simp only [List.forall_mem_cons] at hholds
  obtain ⟨hstatementsJson, hspanJson, -⟩ := hholds
  rw [Script.ofJson?_object,
    hstatementsJson.bind_eq_some rfl fun _ h => h.list?_eq_some hstatements,
    hspanJson.bind_eq_some rfl hspan.survives]
  cases s
  rfl

/-- The spans of a tree fit. -/
def Fits (root : Node) : Prop := ∀ node ∈ root.all, ∀ span, node.span? = some span → span.Fits

theorem Fits.span {node : Node} (h : node.Fits) {span : Span} (hspan : node.span? = some span) :
    span.Fits := h node (mem_all_self node) span hspan

/-- A tree whose spans fit is read back. -/
theorem survives {node : Node} (h : node.Fits) : node.Survives := by
  induction node using Node.induction with
  | step node ih =>
    have hbelow (child : Node) (hchild : child ∈ node.children) : child.Survives :=
      ih child hchild fun other hother => h other (mem_all_of_child hchild hother)
    cases node with
    | script s => exact survives_script (h.span rfl) fun t ht => hbelow _ (List.mem_map_of_mem ht)
    | statement s => exact survives_statement (h.span rfl) (hbelow _ List.mem_cons_self)
    | pipeline p =>
      exact survives_pipeline (h.span rfl) fun c hc => hbelow _ (List.mem_map_of_mem hc)
    | command c =>
      refine survives_command (h.span rfl) (fun a ha => hbelow _ ?_) fun w hw => hbelow _ ?_
      · exact List.mem_append_left _ (List.mem_map_of_mem ha)
      · exact List.mem_append_right _ (List.mem_map_of_mem hw)
    | assignment a =>
      refine survives_assignment (h.span rfl) fun w hw => hbelow _ ?_
      exact List.mem_map_of_mem (Option.mem_toList.2 hw)
    | word w => exact survives_word (h.span rfl) fun p hp => hbelow _ (List.mem_map_of_mem hp)
    | part p => exact survives_part hbelow
    | glob g => exact survives_glob g
    | substitution body => exact hbelow (script body) List.mem_cons_self

end Node

/-- A tree whose offsets can be written is read back from its JSON, and from every looser one. -/
theorem Script.ofJson?_of_loosens {script : Script}
    (hspans : ∀ node ∈ script.nodes, ∀ span, node.span? = some span →
      span.start < Json.offsetBound ∧ span.stop < Json.offsetBound) :
    Script.ofJson? script.toJson = some script ∧
      ∀ json, Json.Loosens script.toJson json → Script.ofJson? json = some script := by
  have hsurvives : (Node.script script).Survives := Node.survives hspans
  exact ⟨hsurvives _ (.same _), hsurvives⟩

/-- The line `v=` as a tree. -/
def clearingScript : Script :=
  let span : Span := ⟨0, 2⟩
  ⟨[⟨⟨[⟨[⟨"v", none, span⟩], [], none, none, none, span⟩], span⟩, false, span⟩], span⟩

/-- The same as JSON, without the members that are null, with one more and two in another order. -/
def clearingJson : Json :=
  let span := Span.toJson ⟨0, 2⟩
  let assignment := .object [("span", span), ("name", .string "v")]
  let command := .object
    [("assignments", .array [assignment]), ("arguments", .array []), ("span", span)]
  let pipeline := .object [("commands", .array [command]), ("span", span)]
  let statement := .object [("pipeline", pipeline), ("background", .bool false), ("span", span)]
  .object [("statements", .array [statement]), ("span", span), ("note", .null)]

theorem loosens_clearingJson : Json.Loosens clearingScript.toJson clearingJson := by
  -- One record inside the other, from the script down to the assignment.
  refine @Json.Loosens.record _ _ [("note", .null)] _ (by simp)
    (.keep (.items (.cons ?_ .nil)) (.keep (.same _) .nil)) (by simp) .rfl
  refine .of_perm (by simp) (.keep ?_ (.keep (.same _) (.keep (.same _) .nil))) .rfl
  refine .of_perm (by simp) (.keep (.items (.cons ?_ .nil)) (.keep (.same _) .nil)) .rfl
  refine .of_perm (by simp) (.keep (.items (.cons ?_ .nil)) (.keep (.same _)
    (.drop (by decide) (.drop (by decide) (.drop (by decide) (.keep (.same _) .nil)))))) .rfl
  exact .of_perm (by simp) (.keep (.same _) (.drop (by decide) (.keep (.same _) .nil))) (.swap ..)

theorem ofJson?_clearingJson :
    (∀ node ∈ clearingScript.nodes, ∀ span, node.span? = some span →
      span.start < Json.offsetBound ∧ span.stop < Json.offsetBound) ∧
    Script.ofJson? clearingJson = some clearingScript := by
  have hspans : ∀ node ∈ clearingScript.nodes, ∀ span, node.span? = some span →
      span.start < Json.offsetBound ∧ span.stop < Json.offsetBound := by
    simp [Script.nodes_eq_all, Node.all_eq, Node.children, Node.span?, clearingScript,
      Command.targets, Json.offsetBound]
  exact ⟨hspans, (Script.ofJson?_of_loosens hspans).2 _ loosens_clearingJson⟩

end CommandSyntax
