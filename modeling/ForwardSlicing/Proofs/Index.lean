import ForwardSlicing.Proofs.Statement
/-!
# Sound indexes

An index is sound for a call graph if each of its tables is the one that a node would be given now, and its heap reads
are those of all nodes. Building a table keeps that, because the nodes of one method carry one body. So a query may be
answered from whatever tables earlier queries left.
-/

namespace ForwardSlicing

/-- A value that was there stays, and the one asked for is there. -/
theorem Memo.find?_demand {κ ν : Type} [BEq κ] [LawfulBEq κ] (m : Memo κ ν) (k j : κ) (make : κ → ν) :
    (m.demand k make).find? j = (m.find? j).or (if k == j then some (make k) else none) := by
  unfold demand
  split
  case isTrue h =>
    rw [contains] at h
    by_cases hkj : k = j
    · subst hkj
      obtain ⟨v, hv⟩ := Option.isSome_iff_exists.1 h
      simp [hv]
    · simp [hkj]
  case isFalse =>
    by_cases hkj : k = j
    · subst hkj
      cases hf : m.entries.find? (·.1 == k) <;> simp [find?, List.find?_append, hf]
    · cases hf : m.entries.find? (·.1 == j) <;> simp [find?, List.find?_append, hf, hkj]

namespace Index

/-- The tables of an index are those of the nodes, and its heap reads those of the call graph. -/
structure Sound (calls : CallGraph) (x : Index) : Prop where
  table : ∀ c ∈ calls.nodes, ∀ t, x.tables.find? c.method = some t → t = .ofProcedure c.procedure
  reads : ∀ rs, x.reads = some rs → rs = calls.nodes.flatMap HeapRead.ofContext

variable {calls : CallGraph} {x : Index} {c : Context}

theorem sound_empty (calls : CallGraph) : Sound calls {} where
  table _ _ _ h := by cases h
  reads _ h := by cases h

/-- A sound index answers about a node as a new table would. -/
theorem Sound.table_eq (hx : x.Sound calls) (hc : c ∈ calls.nodes) :
    x.table c.procedure = .ofProcedure c.procedure := by
  unfold Index.table
  cases h : x.tables.find? c.procedure.method with
  | none => rfl
  | some t => exact hx.table c hc t h

theorem Sound.withTable (hx : x.Sound calls) (hone : OneBody {c | c ∈ calls.nodes}) (hc : c ∈ calls.nodes) :
    (x.withTable c.procedure).Sound calls where
  table d hd t h := by
    rw [Index.withTable, Memo.find?_demand, Option.or_eq_some_iff] at h
    rcases h with h | ⟨-, h⟩
    · exact hx.table d hd t h
    -- the new table may be asked for by another node of its method, which has the same body
    · split at h
      case isTrue hm => rw [← Option.some.inj h, hone c hc d hd (eq_of_beq hm)]
      case isFalse => cases h
  reads := hx.reads

theorem Sound.note (hx : x.Sound calls) (n : Note) : (x.note n).Sound calls := ⟨hx.table, hx.reads⟩

theorem Sound.noteControl (hx : x.Sound calls) (p : Procedure) : (x.noteControl p).Sound calls := by
  unfold Index.noteControl
  dsimp only
  split
  · exact hx
  · exact hx.note _

theorem Sound.withReads (hx : x.Sound calls) : (x.withReads calls).Sound calls := by
  unfold Index.withReads
  split
  · exact hx
  · exact ⟨hx.table, fun _ h => (Option.some.inj h).symm⟩

theorem Sound.reads_withReads (hx : x.Sound calls) :
    (x.withReads calls).reads = some (calls.nodes.flatMap HeapRead.ofContext) := by
  unfold Index.withReads
  split
  case isTrue h =>
    obtain ⟨rs, hrs⟩ := Option.isSome_iff_exists.1 h
    rw [hrs, hx.reads rs hrs]
  case isFalse => rfl

end Index

/-- The heap reads of a call graph are the field reads of its nodes. -/
theorem HeapRead.mem_ofContext {c : Context} {r : HeapRead} :
    r ∈ HeapRead.ofContext c ↔ ∃ i result base field, c.body[i]? = some (.getField result base field) ∧
      r = ⟨.of (some c) base field, .of c (.normal i)⟩ := by
  simp only [ofContext, List.mem_filterMap, Option.map_eq_some_iff]
  constructor
  · rintro ⟨⟨ins, i⟩, hi, l, hl, rfl⟩
    cases ins with
    | getField result base field =>
      rw [← Option.some.inj hl]
      exact ⟨i, result, base, field, List.mem_zipIdx_iff_getElem?.1 hi, rfl⟩
    | _ => cases hl
  · rintro ⟨i, result, base, field, hi, rfl⟩
    exact ⟨(.getField result base field, i), List.mem_zipIdx_iff_getElem?.2 hi, _, rfl, rfl⟩

namespace DependenceGraph

variable {g : DependenceGraph} {x : Index} {s : Statement}

theorem indexForData_sound (hone : OneBody {c | c ∈ g.calls.nodes}) (hx : x.Sound g.calls)
    (hs : s.context ∈ g.calls.nodes) (level : Level) : (g.indexForData level s x).Sound g.calls := by
  have ht := hx.withTable hone hs
  have hif : ∀ b : Bool, (if b = true then x else x.withTable s.context.procedure).Sound g.calls := by
    intro b
    cases b with
    | true => exact hx
    | false => exact ht
  unfold indexForData
  split
  · exact hx
  · dsimp only
    split
    · exact (hif _).withReads
    · exact hif _
  · split
    · exact ht
    · exact hx
  · exact hif _
  · exact ht
  · exact hx

theorem indexForControl_sound (hone : OneBody {c | c ∈ g.calls.nodes}) (hx : x.Sound g.calls)
    (hs : s.context ∈ g.calls.nodes) : (indexForControl s x).Sound g.calls := by
  have ht := hx.withTable hone hs
  unfold indexForControl
  dsimp only
  split
  · exact ht.noteControl _
  · exact ht.noteControl _
  · exact ht

/-! ## Answers -/

/-- A query succeeds, leaves a sound index, and answers exactly the statements with a property. -/
def Answered (g : DependenceGraph) (P : Statement → Prop) (query : Answer (List Statement)) : Prop :=
  ∃ l x, query = (.ok l, x) ∧ x.Sound g.calls ∧ l.Nodup ∧ ∀ t, t ∈ l ↔ P t

/-- Dropping repeats loses no statement of the call graph. -/
theorem answered_distinct (hg : g.calls.WellFormed) (hx : x.Sound g.calls) {P : Statement → Prop} {l : List Statement}
    (hP : ∀ t, P t → g.calls.Holds t) (hl : ∀ t, t ∈ l ↔ P t) : g.Answered P (.ok (distinct l), x) := by
  have hheld : ∀ t ∈ l, g.calls.Holds t := fun t ht => hP t ((hl t).1 ht)
  refine ⟨distinct l, x, rfl, hx, nodup_distinct l, fun t => ?_⟩
  rw [hg.exactOn_holds.mem_distinct hheld, hl]

/-- A level that is not enabled answers nothing. -/
theorem answered_nil (hx : x.Sound g.calls) {P : Statement → Prop} (hP : ∀ t, ¬P t) : g.Answered P (.ok [], x) :=
  ⟨[], x, rfl, hx, List.nodup_nil, fun t => by simp [hP t]⟩

/-! ## Statements of instructions -/

theorem nodeStatement_ret {c : Context} {i : Nat} {v : Option Int} (h : c.body[i]? = some (.ret v)) :
    nodeStatement c i = .ok (.of c .exit) := by
  simp [nodeStatement, h]

theorem nodeStatement_normal {c : Context} {i : Nat} {ins : Instruction} (h : c.body[i]? = some ins)
    (hr : ins.isReturn = false) : nodeStatement c i = .ok (.of c (.normal i)) := by
  cases ins with
  | ret v => cases hr
  | _ => simp [nodeStatement, h]

end DependenceGraph
end ForwardSlicing
