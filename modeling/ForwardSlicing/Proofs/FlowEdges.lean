import Mathlib.Data.List.Perm.Basic
import ForwardSlicing.Document.Procedure
import ForwardSlicing.Proofs.Flow
/-!
# The edges of a flow graph

`Flows` says where control may go in a body, one rule for each kind of instruction, and `JumpsOutside` which bodies have no
flow graph. The graph is made in one pass: `mem_edges_iff_flows` says that the pass finds the edges of `Flows` and no
others, and `nodup_ends` that it joins no two nodes twice. The second needs that the edges of two instructions leave
different nodes, and that a branch to the next instruction has one edge.
-/

namespace ForwardSlicing

/-! ## Where control goes -/

/-- Where control goes on if it is not sent elsewhere: to the next instruction, or from the last one to the exit. -/
inductive Follows (size i : Nat) : FlowNode → Prop
  | next : i + 1 < size → Follows size i (.instr (i + 1))
  | last : i + 1 = size → Follows size i .exit

/-- The ways of control in a body. -/
inductive Flows (body : List Instruction) : FlowEdge → Prop
  | through : body = [] → Flows body ⟨.entry, .exit, .normal⟩
  | enter : body ≠ [] → Flows body ⟨.entry, .instr 0, .normal⟩
  | start : body ≠ [] → Flows body ⟨.entry, .exit, .start⟩
  | goto {i t : Nat} : body[i]? = some (.goto t) → Flows body ⟨.instr i, .instr t, .normal⟩
  | ret {i : Nat} {v : Option Int} : body[i]? = some (.ret v) → Flows body ⟨.instr i, .exit, .normal⟩
  | taken {i t : Nat} {os : List Int} : body[i]? = some (.branch os t) → Flows body ⟨.instr i, .instr t, .whenTrue⟩
  | missed {i t : Nat} {os : List Int} {n : FlowNode} : body[i]? = some (.branch os t) → Follows body.length i n →
      n ≠ .instr t → Flows body ⟨.instr i, n, .whenFalse⟩
  | plain {i : Nat} {ins : Instruction} {n : FlowNode} : body[i]? = some ins → (∀ t, ins ≠ .goto t) →
      (∀ v, ins ≠ .ret v) → (∀ os t, ins ≠ .branch os t) → Follows body.length i n → Flows body ⟨.instr i, n, .normal⟩

theorem Follows.ne_entry {size i : Nat} {n : FlowNode} (h : Follows size i n) : n ≠ .entry := by
  cases h <;> simp

/-- Control does not come back to the entry, and it does not leave the exit. -/
theorem Flows.ends {body : List Instruction} {e : FlowEdge} (h : Flows body e) : e.target ≠ .entry ∧ e.source ≠ .exit := by
  cases h with
  | missed _ hn _ => exact ⟨hn.ne_entry, by simp⟩
  | plain _ _ _ _ hn => exact ⟨hn.ne_entry, by simp⟩
  | _ => simp

/-- A branch or a jump leads before the first instruction of the body or past its last one. -/
def JumpsOutside (body : List Instruction) : Prop :=
  ∃ t : Int, ((∃ os, .branch os t ∈ body) ∨ .goto t ∈ body) ∧ (t < 0 ∨ body.length ≤ t)

theorem Instruction.mem_jumps {ins : Instruction} {t : Int} :
    t ∈ ins.jumps ↔ (∃ os, ins = .branch os t) ∨ ins = .goto t := by
  cases ins <;> simp [jumps, eq_comm]

namespace FlowGraph

theorem badJump?_iff_inside {body : List Instruction} : badJump? body = none ↔ ¬JumpsOutside body := by
  rw [badJump?_eq_none_iff]
  constructor
  · rintro h ⟨t, hmem, hout⟩
    obtain ⟨ins, hins, ht⟩ : ∃ ins ∈ body, t ∈ ins.jumps := by
      rcases hmem with ⟨os, hmem⟩ | hmem
      · exact ⟨_, hmem, Instruction.mem_jumps.2 (.inl ⟨os, rfl⟩)⟩
      · exact ⟨_, hmem, Instruction.mem_jumps.2 (.inr rfl)⟩
    have hrange := h ins hins t ht
    omega
  · intro h ins hins t ht
    by_contra hrange
    refine h ⟨t, ?_, by omega⟩
    rcases Instruction.mem_jumps.1 ht with ⟨os, rfl⟩ | rfl
    · exact .inl ⟨os, hins⟩
    · exact .inr hins

/-! ## Members -/

section Members
variable {size i : Nat} {n : FlowNode} {e : FlowEdge} {body : List Instruction} {ins : Instruction}

theorem follows_iff (hi : i < size) : Follows size i n ↔ n = nextNode size i := by
  unfold nextNode
  split
  case isTrue h =>
    constructor
    · rintro (_ | hlast)
      · rfl
      · omega
    · rintro rfl
      exact .next h
  case isFalse h =>
    constructor
    · rintro (hnext | _)
      · omega
      · rfl
    · rintro rfl
      exact .last (by omega)

theorem instructionEdges_plain (hgoto : ∀ t, ins ≠ .goto t) (hret : ∀ v, ins ≠ .ret v)
    (hbranch : ∀ os t, ins ≠ .branch os t) : instructionEdges size i ins = [⟨.instr i, nextNode size i, .normal⟩] := by
  cases ins with
  | goto t => exact absurd rfl (hgoto t)
  | ret v => exact absurd rfl (hret v)
  | branch os t => exact absurd rfl (hbranch os t)
  | _ => rfl

theorem flows_of_mem_instructionEdges (hi : body[i]? = some ins) (hjumps : ∀ t ∈ ins.jumps, 0 ≤ t)
    (he : e ∈ instructionEdges body.length i ins) : Flows body e := by
  have hlt : i < body.length := (List.getElem?_eq_some_iff.1 hi).1
  have hnext : Follows body.length i (nextNode body.length i) := (follows_iff hlt).2 rfl
  cases ins with
  | branch os t =>
    obtain ⟨t, rfl⟩ := Int.eq_ofNat_of_zero_le (hjumps t (by simp [Instruction.jumps]))
    rcases mem_branchEdges_iff.1 he with rfl | ⟨hne, rfl⟩
    · exact .taken hi
    · exact .missed hi hnext hne
  | goto t =>
    obtain ⟨t, rfl⟩ := Int.eq_ofNat_of_zero_le (hjumps t (by simp [Instruction.jumps]))
    rw [List.mem_singleton.1 he]
    exact .goto hi
  | ret v =>
    rw [List.mem_singleton.1 he]
    exact .ret hi
  | _ =>
    rw [List.mem_singleton.1 he]
    exact .plain hi (by simp) (by simp) (by simp) hnext

/-- The edges of the graph of a body whose jumps stay inside are the ways of control in it. -/
theorem mem_edges_iff_flows (h : badJump? body = none) : e ∈ (ofBody body).edges ↔ Flows body e := by
  simp only [mem_edges_ofBody, mem_entryEdges_iff, ne_eq, List.length_eq_zero_iff]
  constructor
  · rintro ((⟨hempty, rfl⟩ | ⟨hne, rfl | rfl⟩) | ⟨i, ins, hi, he⟩)
    · exact .through hempty
    · exact .enter hne
    · exact .start hne
    · refine flows_of_mem_instructionEdges hi (fun t ht => ?_) he
      exact (badJump?_eq_none_iff.1 h ins (List.mem_of_getElem? hi) t ht).1
  · intro he
    have hnext : ∀ {i ins n}, body[i]? = some ins → Follows body.length i n → n = nextNode body.length i := fun hi =>
      (follows_iff (List.getElem?_eq_some_iff.1 hi).1).1
    cases he with
    | through hempty => exact .inl (.inl ⟨hempty, rfl⟩)
    | enter hne => exact .inl (.inr ⟨hne, .inl rfl⟩)
    | start hne => exact .inl (.inr ⟨hne, .inr rfl⟩)
    | goto hi => exact .inr ⟨_, _, hi, by simp [instructionEdges]⟩
    | ret hi => exact .inr ⟨_, _, hi, by simp [instructionEdges]⟩
    | taken hi => exact .inr ⟨_, _, hi, mem_branchEdges_iff.2 (.inl rfl)⟩
    | missed hi hn hne =>
      cases hnext hi hn
      exact .inr ⟨_, _, hi, mem_branchEdges_iff.2 (.inr ⟨hne, rfl⟩)⟩
    | plain hi hgoto hret hbranch hn =>
      cases hnext hi hn
      exact .inr ⟨_, _, hi, by simp [instructionEdges_plain hgoto hret hbranch]⟩

end Members

/-! ## No edge twice -/

section Repeats
variable {i : Nat} {n : FlowNode} {body : List Instruction} {ins : Instruction}

theorem nodup_ends_instructionEdges (size i : Nat) (ins : Instruction) :
    ((instructionEdges size i ins).map fun e => (e.source, e.target)).Nodup := by
  cases ins with
  | branch os t =>
    simp only [instructionEdges]
    split
    case isTrue => simp
    case isFalse hne => simp [hne]
  | _ => simp [instructionEdges]

theorem source_of_mem_ends {size : Nat} {x : FlowNode × FlowNode}
    (h : x ∈ (instructionEdges size i ins).map fun e => (e.source, e.target)) : x.1 = .instr i := by
  obtain ⟨e, he, rfl⟩ := List.mem_map.1 h
  exact (mem_instructionEdges he).1

/-- No two edges join the same nodes. -/
theorem nodup_ends (body : List Instruction) : ((ofBody body).edges.map fun e => (e.source, e.target)).Nodup := by
  have hentry : ((entryEdges body.length).map fun e => (e.source, e.target)).Nodup := by
    unfold entryEdges
    split <;> simp
  rw [ofBody, List.map_append, List.map_flatMap]
  refine hentry.append (List.nodup_flatMap.2 ⟨fun x _ => nodup_ends_instructionEdges _ _ _, ?_⟩) ?_
  · -- the edges of two instructions leave different nodes
    have hindices : body.zipIdx.Pairwise fun x y => x.2 ≠ y.2 := by
      rw [← List.pairwise_map (f := Prod.snd) (R := (· ≠ ·)), List.zipIdx_map_snd]
      exact List.nodup_range'
    refine hindices.imp fun hne => ?_
    rintro e hx hy
    exact hne (FlowNode.instr.inj ((source_of_mem_ends hx).symm.trans (source_of_mem_ends hy)))
  · rintro x hx hy
    obtain ⟨⟨ins, i⟩, -, hy⟩ := List.mem_flatMap.1 hy
    obtain ⟨e, he, rfl⟩ := List.mem_map.1 hx
    cases (mem_entryEdges he).1.symm.trans (source_of_mem_ends hy)

/-- Edges that leave one node and join no two nodes twice lead to different nodes. -/
theorem nodup_targets {es : List FlowEdge} (hsource : ∀ e ∈ es, e.source = n)
    (h : (es.map fun e => (e.source, e.target)).Nodup) : (es.map (·.target)).Nodup := by
  rw [List.Nodup, List.pairwise_map] at h ⊢
  refine h.imp_of_mem fun {a b} ha hb hne htarget => hne ?_
  rw [hsource a ha, hsource b hb, htarget]

theorem nodup_succs (body : List Instruction) (n : FlowNode) : ((ofBody body).succs n).Nodup := by
  refine nodup_targets (fun e he => by simpa using (List.mem_filter.1 he).2) ?_
  exact (nodup_ends body).sublist (List.filter_sublist.map _)

/-- Control leaves an instruction in as many ways as it has edges of its own. -/
theorem length_succs_instr (hi : body[i]? = some ins) :
    ((ofBody body).succs (.instr i)).length = (instructionEdges body.length i ins).length := by
  have htargets : ((instructionEdges body.length i ins).map (·.target)).Nodup :=
    nodup_targets (fun e he => (mem_instructionEdges he).1) (nodup_ends_instructionEdges _ _ _)
  have hperm : ((ofBody body).succs (.instr i)).Perm ((instructionEdges body.length i ins).map (·.target)) := by
    rw [List.perm_ext_iff_of_nodup (nodup_succs body _) htargets]
    intro n
    simp [mem_succs_instr, hi]
  rw [hperm.length_eq, List.length_map]

theorem length_instructionEdges (size i : Nat) (ins : Instruction) :
    (instructionEdges size i ins).length = 1 ∨ (instructionEdges size i ins).length = 2 := by
  cases ins with
  | branch os t =>
    simp only [instructionEdges]
    split <;> simp
  | _ => exact .inl rfl

end Repeats

/-! ## Building a graph -/

theorem exists_build_error {body : List Instruction} : (∃ jump, build body = .error jump) ↔ JumpsOutside body := by
  rw [← not_iff_not, ← badJump?_iff_inside]
  unfold build
  cases badJump? body with
  | none => simp
  | some jump => simp

/-- A body is refused for a jump of one of its instructions. -/
theorem jump_of_build_error {body : List Instruction} {i : Nat} {t : Int} (h : build body = .error (i, t)) :
    (∃ ins, body[i]? = some ins ∧ t ∈ ins.jumps) ∧ (t < 0 ∨ body.length ≤ t) := by
  have hbad : badJump? body = some (i, t) := by
    unfold build at h
    cases hb : badJump? body with
    | none => simp [hb] at h
    | some jump => simpa [hb] using h
  obtain ⟨⟨ins, j⟩, hj, hfound⟩ := List.exists_of_findSome?_eq_some hbad
  obtain ⟨u, hu, he⟩ := Option.map_eq_some_iff.1 hfound
  obtain ⟨rfl, rfl⟩ := Prod.mk.inj he
  refine ⟨⟨ins, List.mem_zipIdx_iff_getElem?.1 hj, List.mem_of_find?_eq_some hu⟩, ?_⟩
  simpa using List.find?_some hu

/-- A body is refused exactly if one of its jumps leads outside; no procedure can be made of it, and the failure names such
a jump. Otherwise the edges of its flow graph are the ways of control in it, each pair of nodes joined once at most.
Nothing leads to the entry or leaves the exit, and control leaves every instruction in one or two ways. -/
theorem build_exact (body : List Instruction) :
    (JumpsOutside body ↔ ∃ i t, build body = .error (i, t) ∧
      (∃ ins, body[i]? = some ins ∧ t ∈ ins.jumps) ∧ (t < 0 ∨ body.length ≤ t) ∧
      ∀ m params, Document.checkedProcedure m params body = .error (.model (.jumpOutside m i t))) ∧
    (¬JumpsOutside body → ∃ g, build body = .ok g ∧
      (∀ e, e ∈ g.edges ↔ Flows body e) ∧
      (g.edges.map fun e => (e.source, e.target)).Nodup ∧
      (∀ e ∈ g.edges, e.target ≠ .entry ∧ e.source ≠ .exit) ∧
      ∀ i < body.length, (g.succs (.instr i)).length = 1 ∨ (g.succs (.instr i)).length = 2) := by
  constructor
  · rw [← exists_build_error]
    constructor
    · rintro ⟨⟨i, t⟩, h⟩
      obtain ⟨hjump, hout⟩ := jump_of_build_error h
      exact ⟨i, t, h, hjump, hout, fun m params => by simp [Document.checkedProcedure, h]⟩
    · rintro ⟨i, t, h, -⟩
      exact ⟨(i, t), h⟩
  · intro hinside
    have hjumps : badJump? body = none := badJump?_iff_inside.2 hinside
    refine ⟨ofBody body, build_eq_ok.2 ⟨hjumps, rfl⟩, fun e => mem_edges_iff_flows hjumps, nodup_ends body, ?_, ?_⟩
    · exact fun e he => ((mem_edges_iff_flows hjumps).1 he).ends
    · intro i hi
      rw [length_succs_instr (List.getElem?_eq_getElem hi)]
      exact length_instructionEdges _ _ _

end FlowGraph

/-- Two branches: the first one leads to the next instruction, and the second one is the last. -/
def Sample.rejoining : List Instruction := [.branch [1] 1, .branch [1] 0]

/-- The first branch has one way out, and the second one has two. With a jump just past its end the body would be refused. -/
theorem FlowGraph.build_exact_rejoining :
    ¬JumpsOutside Sample.rejoining ∧
    build Sample.rejoining = .ok (ofBody Sample.rejoining) ∧
    (∀ e, Flows Sample.rejoining e ↔ e ∈ [
      (⟨.entry, .instr 0, .normal⟩ : FlowEdge), ⟨.entry, .exit, .start⟩, ⟨.instr 0, .instr 1, .whenTrue⟩,
      ⟨.instr 1, .instr 0, .whenTrue⟩, ⟨.instr 1, .exit, .whenFalse⟩]) ∧
    ((ofBody Sample.rejoining).succs (.instr 0)).length = 1 ∧
    JumpsOutside (Sample.rejoining ++ [.goto 3]) := by
  have hinside : ¬JumpsOutside Sample.rejoining := badJump?_iff_inside.1 (by decide)
  have hbuild : build Sample.rejoining = .ok (ofBody Sample.rejoining) := by rfl
  obtain ⟨g, hg, hedges, -⟩ := (build_exact Sample.rejoining).2 hinside
  cases hbuild.symm.trans hg
  refine ⟨hinside, hbuild, fun e => (hedges e).symm, by decide, (build_exact _).1.2 ?_⟩
  exact ⟨2, 3, by decide, ⟨_, rfl, by decide⟩, by decide, fun m params => rfl⟩

end ForwardSlicing
