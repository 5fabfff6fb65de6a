import ForwardSlicing.Dependence.Index
import ForwardSlicing.Proofs.Lists
/-!
# Flow graphs stay inside their bodies

If the jumps of a body stay inside, every edge of its flow graph leads to a node, and so do the immediate
post-dominators.
-/

namespace ForwardSlicing

namespace FlowGraph

theorem instr_mem_nodes {g : FlowGraph} {i : Nat} : .instr i ∈ g.nodes ↔ i < g.size := by
  simp [nodes]

theorem nodup_nodes (g : FlowGraph) : g.nodes.Nodup := by
  have hinstrs : ((List.range g.size).map FlowNode.instr).Nodup :=
    List.nodup_range.map fun _ _ h => FlowNode.instr.inj h
  simp [nodes, hinstrs]

/-! ## Edges -/

/-- The edges of a flow graph are those out of the entry and those out of each instruction. -/
theorem mem_edges_ofBody {body : List Instruction} {e : FlowEdge} : e ∈ (ofBody body).edges ↔
    e ∈ entryEdges body.length ∨ ∃ i ins, body[i]? = some ins ∧ e ∈ instructionEdges body.length i ins := by
  simp only [ofBody, List.mem_append, List.mem_flatMap]
  refine or_congr_right ⟨?_, ?_⟩
  · rintro ⟨⟨ins, i⟩, hi, he⟩
    exact ⟨i, ins, List.mem_zipIdx_iff_getElem?.1 hi, he⟩
  · rintro ⟨i, ins, hi, he⟩
    exact ⟨(ins, i), List.mem_zipIdx_iff_getElem?.2 hi, he⟩

theorem mem_entryEdges_iff {size : Nat} {e : FlowEdge} : e ∈ entryEdges size ↔
    (size = 0 ∧ e = ⟨.entry, .exit, .normal⟩) ∨
      (size ≠ 0 ∧ (e = ⟨.entry, .instr 0, .normal⟩ ∨ e = ⟨.entry, .exit, .start⟩)) := by
  unfold entryEdges
  split <;> simp_all

theorem mem_entryEdges {size : Nat} {e : FlowEdge} (he : e ∈ entryEdges size) :
    e.source = .entry ∧ (e.target = .exit ∨ ∃ i < size, e.target = .instr i) := by
  rcases mem_entryEdges_iff.1 he with ⟨-, rfl⟩ | ⟨hpos, rfl | rfl⟩
  · exact ⟨rfl, .inl rfl⟩
  · exact ⟨rfl, .inr ⟨0, Nat.pos_of_ne_zero hpos, rfl⟩⟩
  · exact ⟨rfl, .inl rfl⟩

/-- A branch has an edge to its target, and one to the next node unless that is the target. -/
theorem mem_branchEdges_iff {size i : Nat} {os : List Int} {t : Int} {e : FlowEdge} :
    e ∈ instructionEdges size i (.branch os t) ↔
      e = ⟨.instr i, .instr t.toNat, .whenTrue⟩ ∨
        (nextNode size i ≠ .instr t.toNat ∧ e = ⟨.instr i, nextNode size i, .whenFalse⟩) := by
  simp only [instructionEdges]
  split
  case isTrue h => simp [h]
  case isFalse h => simp [Ne.symm h]

theorem nextNode_cases (size i : Nat) : nextNode size i = .exit ∨ ∃ j < size, nextNode size i = .instr j := by
  unfold nextNode
  split
  case isTrue h => exact .inr ⟨i + 1, h, rfl⟩
  case isFalse => exact .inl rfl

/-- An edge out of an instruction leads to the exit, to an instruction of the body, or where the instruction jumps. -/
theorem mem_instructionEdges {size i : Nat} {ins : Instruction} {e : FlowEdge} (he : e ∈ instructionEdges size i ins) :
    e.source = .instr i ∧
      (e.target = .exit ∨ (∃ j < size, e.target = .instr j) ∨ ∃ t ∈ ins.jumps, e.target = .instr t.toNat) := by
  have hnext : ∀ label, FlowEdge.mk (.instr i) (nextNode size i) label = e →
      e.source = .instr i ∧
        (e.target = .exit ∨ (∃ j < size, e.target = .instr j) ∨ ∃ t ∈ ins.jumps, e.target = .instr t.toNat) := by
    rintro label rfl
    rcases nextNode_cases size i with h | h
    · exact ⟨rfl, .inl h⟩
    · exact ⟨rfl, .inr (.inl h)⟩
  cases ins with
  | branch os t =>
    rcases mem_branchEdges_iff.1 he with rfl | ⟨-, rfl⟩
    · exact ⟨rfl, .inr (.inr ⟨t, by simp [Instruction.jumps], rfl⟩)⟩
    · exact hnext _ rfl
  | goto t =>
    rw [List.mem_singleton.1 he]
    exact ⟨rfl, .inr (.inr ⟨t, by simp [Instruction.jumps], rfl⟩)⟩
  | ret v =>
    rw [List.mem_singleton.1 he]
    exact ⟨rfl, .inl rfl⟩
  | _ => exact hnext _ (List.mem_singleton.1 he).symm

theorem badJump?_eq_none_iff {body : List Instruction} :
    badJump? body = none ↔ ∀ ins ∈ body, ∀ t ∈ ins.jumps, 0 ≤ t ∧ t < body.length := by
  simp only [badJump?, List.findSome?_eq_none_iff, Option.map_eq_none_iff, List.find?_eq_none, Bool.or_eq_true,
    decide_eq_true_eq, not_or, not_lt, not_le]
  constructor
  · intro h ins hins
    obtain ⟨i, hi⟩ := List.getElem?_of_mem hins
    exact h (ins, i) (List.mem_zipIdx_iff_getElem?.2 hi)
  · rintro h ⟨ins, i⟩ hi
    exact h ins (List.mem_of_getElem? (List.mem_zipIdx_iff_getElem?.1 hi))

theorem build_eq_ok {body : List Instruction} {g : FlowGraph} :
    build body = .ok g ↔ badJump? body = none ∧ g = ofBody body := by
  unfold build
  cases badJump? body with
  | none => simp [eq_comm]
  | some jump => simp

/-- A jump of a body that has no jump outside leads to an instruction. -/
theorem jump_lt {body : List Instruction} (h : badJump? body = none) {ins : Instruction} {i : Nat}
    (hi : body[i]? = some ins) {t : Int} (ht : t ∈ ins.jumps) : t.toNat < body.length := by
  have hrange := badJump?_eq_none_iff.1 h ins (List.mem_of_getElem? hi) t ht
  omega

/-- Every edge leads to the exit or to an instruction of the body. -/
theorem target_cases {body : List Instruction} (h : badJump? body = none) {e : FlowEdge}
    (he : e ∈ (ofBody body).edges) : e.target = .exit ∨ ∃ i < body.length, e.target = .instr i := by
  rcases mem_edges_ofBody.1 he with he | ⟨i, ins, hi, he⟩
  · exact (mem_entryEdges he).2
  · rcases (mem_instructionEdges he).2 with htarget | htarget | ⟨t, ht, htarget⟩
    · exact .inl htarget
    · exact .inr htarget
    · exact .inr ⟨t.toNat, jump_lt h hi ht, htarget⟩

theorem target_mem_nodes {body : List Instruction} (h : badJump? body = none) {e : FlowEdge}
    (he : e ∈ (ofBody body).edges) : e.target ∈ (ofBody body).nodes := by
  rcases target_cases h he with htarget | ⟨i, hi, htarget⟩
  · simp [htarget, nodes]
  · rw [htarget]
    exact instr_mem_nodes.2 hi

/-- Control leaves an instruction along the edges of its own. -/
theorem mem_succs_instr {body : List Instruction} {i : Nat} {n : FlowNode} : n ∈ (ofBody body).succs (.instr i) ↔
    ∃ ins e, body[i]? = some ins ∧ e ∈ instructionEdges body.length i ins ∧ e.target = n := by
  simp only [succs, edgesFrom, List.mem_map, List.mem_filter, decide_eq_true_eq, mem_edges_ofBody]
  constructor
  · rintro ⟨e, ⟨he | ⟨j, ins, hj, he⟩, hsource⟩, rfl⟩
    · cases (mem_entryEdges he).1.symm.trans hsource
    · cases (mem_instructionEdges he).1.symm.trans hsource
      exact ⟨ins, e, hj, he, rfl⟩
  · rintro ⟨ins, e, hi, he, rfl⟩
    exact ⟨e, ⟨.inr ⟨i, ins, hi, he⟩, (mem_instructionEdges he).1⟩, rfl⟩

/-! ## Post-dominators -/

theorem mem_of_entryOf {β : Type} {table : List (FlowNode × β)} {n : FlowNode} {b : β}
    (h : entryOf table n = some b) : (n, b) ∈ table := by
  obtain ⟨⟨m, b'⟩, hf, rfl⟩ := Option.map_eq_some_iff.1 h
  have hm : m = n := by simpa using List.find?_some hf
  exact hm ▸ List.mem_of_find?_eq_some hf

theorem postDominator_mem_nodes {g : FlowGraph} {n : FlowNode} {ds : List FlowNode}
    (h : (n, ds) ∈ g.postDominators) : ∀ d ∈ ds, d ∈ g.nodes := by
  intro d hd
  obtain ⟨m, -, hm⟩ := List.mem_map.1 h
  rw [← (Prod.mk.inj hm).2] at hd
  obtain ⟨⟨b, reaching⟩, hb, rfl⟩ := List.mem_map.1 hd
  obtain ⟨b', hb', he⟩ := List.mem_map.1 (List.mem_filter.1 hb).1
  rw [← (Prod.mk.inj he).1]
  exact hb'

theorem immediatePostDominator_mem_nodes {g : FlowGraph} {n p : FlowNode}
    (h : (n, p) ∈ g.immediatePostDominators) : p ∈ g.nodes := by
  obtain ⟨⟨m, ds⟩, hm, hp⟩ := List.mem_filterMap.1 h
  dsimp only at hp
  split at hp
  · cases hp
  · obtain ⟨q, hq, he⟩ := Option.map_eq_some_iff.1 hp
    rw [← (Prod.mk.inj he).2]
    exact postDominator_mem_nodes hm q (List.mem_of_find?_eq_some hq)

end FlowGraph
end ForwardSlicing
