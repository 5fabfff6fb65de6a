import ForwardSlicing.Proofs.DotLines
import ForwardSlicing.Report.Json
/-!
# Reports are stable and lose nothing

A report sorts the statements of a slice, and a set of statements of a loaded model has one list in order. So two slices
with the same statements have the same reports. The data of a statement tells it apart from all others of the model
(`compare_eq_of_same_data`), so the data of two slices is the same only if their statements are (`sameItems_data_iff`). The
label of a statement tells its point (`point_of_label`), so a list of labels below a context is a list of its statements.
-/

namespace ForwardSlicing

/-! ## Equality of document values -/

namespace Json

theorem sameFields_iff {gs : List (String × Json)} : ∀ {fs : List (String × Json)},
    sameFields fs gs = true ↔ ∀ f ∈ fs, ∃ w, lookup gs f.1 = some w ∧ f.2.same w = true := by
  intro fs
  induction fs with
  | nil => simp [sameFields]
  | cons f fs ih =>
    obtain ⟨k, v⟩ := f
    rw [sameFields, Bool.and_eq_true, ih, List.forall_mem_cons]
    apply and_congr_left'
    cases lookup gs k with
    | none => simp
    | some w => simp

/-- An object is the same as another one if it has as many fields and each of them is a field of the other. -/
theorem same_obj_iff {fs gs : List (String × Json)} : (obj fs).same (.obj gs) = true ↔
    fs.length = gs.length ∧ ∀ f ∈ fs, ∃ w, lookup gs f.1 = some w ∧ f.2.same w = true := by
  rw [same, Bool.and_eq_true, beq_iff_eq, sameFields_iff]

theorem same_str_iff {s t : String} : (str s).same (.str t) = true ↔ s = t := by
  rw [same, beq_iff_eq]

theorem same_int_iff {i j : Int} : (int i).same (.int j) = true ↔ i = j := by
  simp [same, asNumber?, sameNumber]

end Json

/-! ## The labels of statements -/

namespace Statement

/-- The kind of a statement is the first word of its label. -/
theorem takeWhile_label (s : Statement) : s.label.toList.takeWhile (· != ' ') = s.kind.text.toList := by
  obtain ⟨c, p, sp⟩ := s
  cases p <;> simp [label, kind, Point.kind, StatementKind.text]

/-- A number is read up to the bracket behind it. -/
theorem eq_of_digits {m n : Nat} {rest rest' : List Char}
    (h : Nat.toDigits 10 m ++ ']' :: rest = Nat.toDigits 10 n ++ ']' :: rest') : m = n ∧ rest = rest' := by
  have hbracket := Report.not_mem_digits (c := ']') (by decide)
  have hread : ∀ k tail, (Nat.toDigits 10 k ++ ']' :: tail).takeWhile (· != ']') = Nat.toDigits 10 k := fun k tail =>
    takeWhile_ne (hbracket k) tail
  have heq : m = n := Report.digits_injective (by rw [← hread m rest, h, hread])
  subst heq
  exact ⟨rfl, (List.cons.inj (List.append_cancel_left h)).2⟩

/-- The label of a statement tells its point. -/
theorem point_of_label {s t : Statement} (h : s.label = t.label) : s.point = t.point := by
  have hkind : s.kind = t.kind := by
    apply kind_text_injective
    rw [← String.toList_inj, ← takeWhile_label, h, takeWhile_label]
  -- Behind one kind, the numbers of the point are read up to the bracket or to the end of the label.
  have hlist := congrArg String.toList h
  obtain ⟨c, p, sp⟩ := s
  obtain ⟨d, q, sq⟩ := t
  cases p <;> cases q <;> cases hkind <;> simp [label, kind, Point.kind, StatementKind.text] at hlist
  case normal.normal => exact congrArg Point.normal (eq_of_digits hlist).1
  case returned.returned => exact congrArg Point.returned (eq_of_digits hlist).1
  case argument.argument =>
    obtain ⟨hindex, hrest⟩ := eq_of_digits hlist
    simp only [List.cons.injEq, true_and] at hrest
    exact congrArg₂ Point.argument hindex (Report.digits_injective hrest)
  case param.param => exact congrArg Point.param (Report.digits_injective hlist)
  case entry.entry => rfl
  case exit.exit => rfl

end Statement

/-! ## The data of statements -/

namespace Report

/-- The fields of the data of a statement that exists. -/
def dataFields (s : Statement) : List (String × Json) :=
  [("kind", .str s.kind.text), ("method", .str s.context.method.signature), ("context", .str s.context.name)] ++
    positionField "index" s.point.index? s.indexJson ++ positionField "argument" s.point.argument? s.argumentJson ++
    (s.instruction?.map fun ins => ("instruction", Json.str ins.text)).toList

/-- The instruction of a point that exists does. -/
theorem body_of_in {c : Context} {p : Point} (h : p.In c) {i : Nat} (hi : p.instruction? = some i) :
    ∃ ins, c.body[i]? = some ins := by
  cases p with
  | normal j =>
    cases hi
    exact ⟨_, List.getElem?_eq_getElem h⟩
  | returned j =>
    cases hi
    obtain ⟨target, args, result, site, hj⟩ := h
    exact ⟨_, hj⟩
  | argument j k =>
    cases hi
    obtain ⟨target, args, result, site, hj, -⟩ := h
    exact ⟨_, hj⟩
  | _ => cases hi

theorem mem_positionField {key : String} {position : Option Nat} {given : Json} {f : String × Json} :
    f ∈ positionField key position given ↔ position.isSome = true ∧ f = (key, given) := by
  unfold positionField
  split <;> simp_all

theorem mem_dataFields {s : Statement} (h : s.spelling = {}) : ("kind", .str s.kind.text) ∈ dataFields s ∧
    ("method", .str s.context.method.signature) ∈ dataFields s ∧ ("context", .str s.context.name) ∈ dataFields s ∧
    (s.point.index?.isSome = true → ("index", .int s.sortIndex) ∈ dataFields s) ∧
    (s.point.argument?.isSome = true → ("argument", .int s.sortArgument) ∈ dataFields s) := by
  simp only [dataFields, List.mem_append, mem_positionField]
  simp [Statement.indexJson, Statement.argumentJson, h]

theorem nodup_dataFields (s : Statement) : ((dataFields s).map (·.1)).Nodup := by
  have hposition : ∀ key position given, ((positionField key position given).map (·.1)).Sublist [key] := by
    intro key position given
    unfold positionField
    split <;> simp
  have hinstruction : ((s.instruction?.map fun ins => ("instruction", Json.str ins.text)).toList.map (·.1)).Sublist
      ["instruction"] := by
    cases s.instruction? <;> simp
  -- the keys are some of these six, in this order
  have hkeys : ((dataFields s).map (·.1)).Sublist
      (["kind", "method", "context"] ++ ["index"] ++ ["argument"] ++ ["instruction"]) := by
    simp only [dataFields, List.map_append]
    exact (((List.Sublist.refl _).append (hposition _ _ _)).append (hposition _ _ _)).append hinstruction
  exact hkeys.nodup (by decide)

section Data
variable {g : CallGraph} {s t : Statement} (hs : g.Holds s)
include hs

theorem statementData_eq : statementData s = .ok (.obj (dataFields s)) := by
  have hfield : instructionField s = .ok (s.instruction?.map fun ins => ("instruction", Json.str ins.text)).toList := by
    unfold instructionField Statement.instruction?
    cases hi : s.point.instruction? with
    | none => rfl
    | some i =>
      obtain ⟨ins, hins⟩ := body_of_in hs.point hi
      simp [hins]
  simp only [statementData, hfield, dataFields]
  rfl

/-- The values are texts and integers. -/
theorem value_of_mem {f : String × Json} (hf : f ∈ dataFields s) : (∃ text, f.2 = .str text) ∨ ∃ i, f.2 = .int i := by
  obtain ⟨c, p, sp⟩ := s
  obtain rfl : sp = {} := hs.plain
  simp only [dataFields, List.mem_append] at hf
  rcases hf with ((hf | hf) | hf) | hf
  · simp only [List.mem_cons, List.not_mem_nil, or_false] at hf
    rcases hf with rfl | rfl | rfl <;> exact .inl ⟨_, rfl⟩
  · exact .inr ⟨_, congrArg Prod.snd (mem_positionField.1 hf).2⟩
  · exact .inr ⟨_, congrArg Prod.snd (mem_positionField.1 hf).2⟩
  · simp only [Option.mem_toList, Option.map_eq_some_iff] at hf
    obtain ⟨ins, -, rfl⟩ := hf
    exact .inl ⟨_, rfl⟩

/-- The data of a statement is the same as itself. -/
theorem same_data_self : (Json.obj (dataFields s)).same (.obj (dataFields s)) = true := by
  rw [Json.same_obj_iff]
  refine ⟨rfl, fun f hf => ⟨f.2, (find?_value_iff (nodup_dataFields s)).2 hf, ?_⟩⟩
  rcases value_of_mem hs hf with ⟨text, h⟩ | ⟨i, h⟩
  · rw [h, Json.same_str_iff]
  · rw [h, Json.same_int_iff]

/-- Statements with the same data tie. -/
theorem compare_eq_of_same_data (ht : g.Holds t) (h : (Json.obj (dataFields s)).same (.obj (dataFields t)) = true) :
    Statement.compare s t = .eq := by
  have hfield : ∀ {key v w}, (key, v) ∈ dataFields s → (key, w) ∈ dataFields t → v.same w = true := by
    intro key v w hv hw
    obtain ⟨w', hw', hsame⟩ := (Json.same_obj_iff.1 h).2 _ hv
    have : some w' = some w := hw'.symm.trans ((find?_value_iff (nodup_dataFields t)).2 hw)
    exact Option.some.inj this ▸ hsame
  obtain ⟨hkindS, hmethodS, hnameS, hindexS, hargumentS⟩ := mem_dataFields hs.plain
  obtain ⟨hkindT, hmethodT, hnameT, hindexT, hargumentT⟩ := mem_dataFields ht.plain
  have hkind : s.kind = t.kind := Statement.kind_text_injective (Json.same_str_iff.1 (hfield hkindS hkindT))
  have hpoint : s.point = t.point := by
    apply Statement.point_eq_of_kind hkind
    · intro hi hi'
      exact Json.same_int_iff.1 (hfield (hindexS hi) (hindexT hi'))
    · intro hk hk'
      exact Json.same_int_iff.1 (hfield (hargumentS hk) (hargumentT hk'))
  apply Statement.compare_eq_iff.2
  refine ⟨Json.same_str_iff.1 (hfield hmethodS hmethodT), Json.same_str_iff.1 (hfield hnameS hnameT), hpoint, ?_⟩
  rw [Statement.fractions, Statement.fractions, hs.plain, ht.plain]

end Data

end Report

/-! ## Slices of loaded models -/

/-- A computation that succeeds on every member succeeds on the list. -/
theorem mapM_eq_map {ε α β : Type} {f : α → Except ε β} {f' : α → β} {xs : List α} (h : ∀ a ∈ xs, f a = .ok (f' a)) :
    xs.mapM f = .ok (xs.map f') := by
  induction xs with
  | nil => rfl
  | cons x xs ih =>
    rw [List.forall_mem_cons] at h
    rw [List.mapM_cons, h.1, ih h.2]
    rfl

namespace Model

open Report

section Stable
variable {m : Model} (hm : m.Loaded) {slice slice' : List Statement}
  (hslice : ∀ s ∈ slice, m.calls.Holds s) (hslice' : ∀ s ∈ slice', m.calls.Holds s)
include hm hslice

theorem Loaded.sliceData_eq (hn : slice.Nodup) :
    sliceData slice = .ok ((Statement.sorted slice).map fun s => .obj (dataFields s)) := by
  apply mapM_eq_map
  intro s hs
  exact statementData_eq (hslice s ((hm.inOrder_sorted hn hslice).mem_iff.1 hs))

theorem Loaded.json_eq_ok (hn : slice.Nodup) {extra : List (String × Json)} (h : Json.lookup extra reservedField = none) :
    ∃ out, json extra slice = .ok out := by
  simp only [json, h, hm.sliceData_eq hslice hn]
  exact ⟨_, rfl⟩

include hslice'

/-- Slices are sorted alike exactly if they have the same statements. -/
theorem Loaded.sorted_eq_iff (hn : slice.Nodup) (hn' : slice'.Nodup) :
    Statement.sorted slice = Statement.sorted slice' ↔ ∀ s, s ∈ slice ↔ s ∈ slice' := by
  have ho := hm.inOrder_sorted hn hslice
  have ho' := hm.inOrder_sorted hn' hslice'
  constructor
  · intro h s
    rw [← ho.mem_iff, h, ho'.mem_iff]
  · exact ho.unique ho'

/-- The data of a list of statements tells it apart from all others. -/
theorem Loaded.sameItems_data_iff : Json.sameItems (slice.map fun s => .obj (dataFields s))
    (slice'.map fun s => .obj (dataFields s)) = true ↔ slice = slice' := by
  induction slice generalizing slice' with
  | nil => cases slice' <;> simp [Json.sameItems]
  | cons s slice ih =>
    cases slice' with
    | nil => simp [Json.sameItems]
    | cons t slice' =>
      rw [List.forall_mem_cons] at hslice hslice'
      have hsame : (Json.obj (dataFields s)).same (.obj (dataFields t)) = true ↔ s = t := by
        constructor
        · intro h
          exact hm.apart hslice.1 hslice'.1 (compare_eq_of_same_data hslice.1 hslice'.1 h)
        · rintro rfl
          exact same_data_self hslice.1
      simp only [List.map_cons, Json.sameItems, Bool.and_eq_true, hsame, ih hslice.2 hslice'.2, List.cons.injEq]

end Stable

/-- Reports of two slices: their data is the same exactly if their statements are, and then all reports are. In texts and in
DOT graphs each context heads one group, and the groups list the statements in order, by labels that tell them apart. -/
theorem report_stable {m : Model} (hm : m.Loaded) {A B : List Statement} (hA : A.Nodup) (hB : B.Nodup)
    (hmadeA : ∀ s ∈ A, m.calls.Made s) (hmadeB : ∀ s ∈ B, m.calls.Made s) :
    (∃ dataA dataB, sliceData A = .ok dataA ∧ sliceData B = .ok dataB ∧
      (Json.sameItems dataA dataB = true ↔ ∀ s, s ∈ A ↔ s ∈ B)) ∧
    ((∀ s, s ∈ A ↔ s ∈ B) →
      (∀ title, Report.text title A = Report.text title B) ∧
      (∀ extra, json extra A = json extra B ∧
        (Json.lookup extra reservedField = none → ∃ out, json extra A = .ok out)) ∧
      (∀ g data control x, dot g data control A x = dot g data control B x) ∧
      ∀ data control x y, x.Sound m.calls → y.Sound m.calls → ∃ out,
        (dot m.dependence data control A x).1 = .ok out ∧ (dot m.dependence data control B y).1 = .ok out) ∧
    (∀ s t : Statement, s.label = t.label → s.point = t.point) ∧
    ∃ groups, Groups A groups ∧
      (∀ title, Report.text title A = "\n".intercalate (
        [title, "==================================================", "",
          "Statements (" ++ A.length.repr ++ ") in " ++ groups.length.repr ++ " context(s):"] ++
        groups.flatMap fun group => ("  " ++ (group.1.method.signature ++ " @ " ++ group.1.name)) ::
          group.2.map fun s => "    - " ++ s.label)) ∧
      ∀ data control x, x.Sound m.calls → ∃ out, (dot m.dependence data control A x).1 = .ok out ∧
        Dot.clusters (Dot.lines out) = groups.map fun group =>
          ("<" ++ (group.1.method.signature ++ " @ " ++ group.1.name) ++ ">", group.2.map Statement.label) := by
  have hholdsA : ∀ s ∈ A, m.calls.Holds s := fun s hs => (hmadeA s hs).holds
  have hholdsB : ∀ s ∈ B, m.calls.Holds s := fun s hs => (hmadeB s hs).holds
  have hoA := hm.inOrder_sorted hA hholdsA
  have hoB := hm.inOrder_sorted hB hholdsB
  have hsorted := hm.sorted_eq_iff hholdsA hholdsB hA hB
  refine ⟨⟨_, _, hm.sliceData_eq hholdsA hA, hm.sliceData_eq hholdsB hB, ?_⟩, fun hmem => ?_,
    fun _ _ => Statement.point_of_label, byContext A, ?_, ?_, ?_⟩
  · rw [← hsorted]
    apply hm.sameItems_data_iff
    · exact fun s hs => hholdsA s (hoA.mem_iff.1 hs)
    · exact fun s hs => hholdsB s (hoB.mem_iff.1 hs)
  · have heq := hsorted.2 hmem
    have hlength : A.length = B.length := by rw [← hoA.perm.length_eq, heq, hoB.perm.length_eq]
    have hgroups : byContext A = byContext B := by rw [byContext_eq, byContext_eq, heq]
    have hdot : ∀ g data control x, dot g data control A x = dot g data control B x := by
      intro g data control x
      simp only [dot, hgroups, heq]
    refine ⟨fun title => ?_, fun extra => ⟨?_, hm.json_eq_ok hholdsA hA⟩, hdot, fun data control x y hx hy => ?_⟩
    · simp only [Report.text, hlength, hgroups]
    · simp only [json, sliceData, heq, hlength]
    · refine ⟨_, hm.dot_eq data control hA hholdsA hx, ?_⟩
      rw [← hdot, hm.dot_eq data control hA hholdsA hy]
  · exact hm.groups_groupsOf hholdsA hoA
  · exact fun title => rfl
  · intro data control x hx
    refine ⟨_, hm.dot_eq data control hA hholdsA hx, ?_⟩
    rw [Dot.lines_intercalate (draws_graphLines _ _).closed (by simp [graphLines]), clusters_graphLines]

end Model

namespace Sample

/-- Statements of two contexts of one method in turns, three of them at one instruction. -/
def interleaved : List Statement :=
  [.of outer (.normal 1), .of inner (.normal 1), .of outer (.returned 1), .of inner .entry, .of outer (.argument 1 0)]

theorem made_interleaved : ∀ s ∈ interleaved, fine.calls.Made s := by
  have houter : outer ∈ fine.calls.nodes := by simp [fine]
  have hinner : inner ∈ fine.calls.nodes := by simp [fine]
  simp only [interleaved, List.forall_mem_cons]
  exact ⟨⟨outer, houter, .normal, 1, 0, rfl⟩, ⟨inner, hinner, .normal, 1, 0, rfl⟩, ⟨outer, houter, .returned, 1, 0, rfl⟩,
    ⟨inner, hinner, .entry, 0, 0, rfl⟩, ⟨outer, houter, .argument, 1, 0, rfl⟩, by simp⟩

theorem nodup_interleaved : interleaved.Nodup := by
  simp [interleaved, outer, inner]

end Sample

namespace Model

open Report

theorem report_stable_interleaved :
    (∃ dataA dataB, sliceData Sample.interleaved.reverse = .ok dataA ∧ sliceData Sample.interleaved = .ok dataB ∧
      Json.sameItems dataA dataB = true) ∧
    (∃ dataA dataB, sliceData Sample.interleaved.tail = .ok dataA ∧ sliceData Sample.interleaved = .ok dataB ∧
      Json.sameItems dataA dataB = false) ∧
    Report.text defaultTitle Sample.interleaved.reverse = Report.text defaultTitle Sample.interleaved ∧
    ∃ groups, Groups Sample.interleaved.reverse groups := by
  have hn := Sample.nodup_interleaved
  have hmade := Sample.made_interleaved
  have hreverse : ∀ s, s ∈ Sample.interleaved.reverse ↔ s ∈ Sample.interleaved := fun s => List.mem_reverse
  have htail : ¬∀ s, s ∈ Sample.interleaved.tail ↔ s ∈ Sample.interleaved := by
    intro h
    have hmem : Statement.of Sample.outer (.normal 1) ∈ Sample.interleaved.tail := (h _).2 (by simp [Sample.interleaved])
    simp [Sample.interleaved, Sample.outer, Sample.inner] at hmem
  obtain ⟨⟨dataA, dataB, hdataA, hdataB, hsame⟩, hstable, -, groups, hgroups, -⟩ := report_stable Sample.fine_loaded
    (List.nodup_reverse.2 hn) hn (fun s hs => hmade s ((hreverse s).1 hs)) hmade
  obtain ⟨⟨dataA', dataB', hdataA', hdataB', hsame'⟩, -⟩ := report_stable Sample.fine_loaded
    hn.tail hn (fun s hs => hmade s (List.mem_of_mem_tail hs)) hmade
  refine ⟨⟨dataA, dataB, hdataA, hdataB, hsame.2 hreverse⟩, ⟨dataA', dataB', hdataA', hdataB', ?_⟩,
    (hstable hreverse).1 defaultTitle, groups, hgroups⟩
  rw [← Bool.not_eq_true, hsame']
  exact htail

end Model
end ForwardSlicing
