import ForwardSlicing.Proofs.PostDominator
/-!
# What the entry decides on

`Procedure.Decides` is control dependence between the nodes of a flow graph. An instruction that it leads to from the
entry, in any number of steps, is one that control can reach, and the other way round (`decides_iff_reaches`). The
argument for the second direction goes along a path of control. If a node is reached, then so is its immediate
post-dominator, because a climb that met the node went on to it or stopped there, at the immediate post-dominator of a
node reached before. Every other successor of the node depends on the node itself.
-/

namespace ForwardSlicing

open Relation FlowGraph

/-! ## Dependents -/

/-- What a table without its empty entries answers, and nothing where there is no entry. -/
theorem mem_getD_entryOf_filter {f : FlowNode → List FlowNode} {ns : List FlowNode} {n m : FlowNode} :
    m ∈ (entryOf ((ns.map fun m => (m, f m)).filter fun e => !e.2.isEmpty) n).getD [] ↔ n ∈ ns ∧ m ∈ f n := by
  have hentry : ∀ ds, entryOf ((ns.map fun m => (m, f m)).filter fun e => !e.2.isEmpty) n = some ds →
      n ∈ ns ∧ ds = f n := by
    intro ds he
    obtain ⟨m, hm, he⟩ := List.mem_map.1 (List.mem_filter.1 (mem_of_entryOf he)).1
    obtain ⟨rfl, rfl⟩ := Prod.mk.inj he
    exact ⟨hm, rfl⟩
  cases he : entryOf ((ns.map fun m => (m, f m)).filter fun e => !e.2.isEmpty) n with
  | some ds =>
    obtain ⟨hn, rfl⟩ := hentry ds he
    simp [hn]
  | none =>
    simp only [Option.getD_none, List.not_mem_nil, false_iff, not_and]
    intro hn hj
    rw [entryOf, Option.map_eq_none_iff, List.find?_eq_none] at he
    have hmem : (n, f n) ∈ (ns.map fun m => (m, f m)).filter fun e => !e.2.isEmpty :=
      List.mem_filter.2 ⟨List.mem_map.2 ⟨n, hn, rfl⟩, by simp [List.ne_nil_of_mem hj]⟩
    exact he _ hmem (by simp)

namespace Procedure

/-- The second node depends on the first one. -/
def Decides (p : Procedure) (a b : FlowNode) : Prop := b ∈ (ProcedureTable.ofProcedure p).dependents a

variable {p : Procedure} (h : badJump? p.body = none)
include h

/-- The nodes that depend on a node are those met on a climb from one of its successors. -/
theorem decides_iff_climb {a b : FlowNode} : p.Decides a b ↔ ∃ s ∈ p.flow.succs a,
    b ∈ climb p.flow.immediatePostDominators (entryOf p.flow.immediatePostDominators a) (p.flow.size + 2) s := by
  have hexact : ExactOn (Set.univ : Set FlowNode) := fun _ _ _ _ h => eq_of_beq h
  unfold Decides ProcedureTable.dependents ProcedureTable.ofProcedure controlDependence
  rw [mem_getD_entryOf_filter, dependentsVia, hexact.mem_distinct (fun _ _ => trivial), List.mem_flatMap]
  -- a node with a successor is a node of the graph
  exact and_iff_right_of_imp fun ⟨s, hs, _⟩ => (inside_ofBody h).source a s hs

/-- Whatever depends on a node is an instruction of the body: neither the entry nor the exit does. -/
theorem Decides.instr {a b : FlowNode} (hab : p.Decides a b) : ∃ i < p.body.length, b = .instr i := by
  have hg : p.flow.Inside := inside_ofBody h
  obtain ⟨s, hs, hb⟩ := (decides_iff_climb h).1 hab
  exact instr_of_mem_climb hg _ (hg.target a s hs) (fun heq => hg.entry a (heq ▸ hs)) hb

theorem Decides.reaches {a b : FlowNode} (hab : p.Decides a b) : p.flow.Reaches a b := by
  obtain ⟨s, hs, hb⟩ := (decides_iff_climb h).1 hab
  exact .head hs (reaches_of_mem_climb (inside_ofBody h) _ hb)

theorem reaches_of_decides {a b : FlowNode} (hab : ReflTransGen p.Decides a b) : p.flow.Reaches a b := by
  induction hab with
  | refl => exact .refl
  | tail _ hbc ih => exact ih.trans (hbc.reaches h)

/-- A node decides on its successors, except for the one that it cannot miss. -/
theorem decides_of_mem_succs {a b : FlowNode} (hb : b ∈ p.flow.succs a) (hexit : b ≠ .exit)
    (hstop : some b ≠ entryOf p.flow.immediatePostDominators a) : p.Decides a b :=
  (decides_iff_climb h).2 ⟨b, hb, mem_climb_self hstop hexit _⟩

/-- What the entry decides on, it decides on together with the immediate post-dominator. -/
theorem decides_immediate {a b : FlowNode} (ha : ReflTransGen p.Decides .entry a)
    (hb : entryOf p.flow.immediatePostDominators a = some b) : b = .exit ∨ ReflTransGen p.Decides .entry b := by
  have hg := inside_ofBody h
  induction ha generalizing b with
  | refl =>
    obtain ⟨hdom, hne⟩ := postDominates_of_entryOf hg hb
    exact .inl (hdom.eq_exit hg hne)
  | @tail c d hc hcd ih =>
    obtain ⟨s, hs, hd⟩ := (decides_iff_climb h).1 hcd
    -- the climb that met the node goes on, unless at the immediate post-dominator of a node before
    rcases climb_closed hg _ (withinReach_nodes hg s) hd hb with hstop | hexit | hmet
    · exact ih hstop.symm
    · exact .inl hexit
    · exact .inr (hc.tail ((decides_iff_climb h).2 ⟨s, hs, hmet⟩))

theorem decides_of_reaches {b : FlowNode} (hb : p.flow.Reaches .entry b) :
    b = .exit ∨ ReflTransGen p.Decides .entry b := by
  have hg := inside_ofBody h
  induction hb with
  | refl => exact .inr .refl
  | @tail a b _ hab ih =>
    rcases ih with rfl | ha
    · rw [Procedure.flow, hg.exit] at hab
      simp at hab
    · by_cases hstop : some b = entryOf p.flow.immediatePostDominators a
      · exact decides_immediate h ha hstop.symm
      · by_cases hexit : b = .exit
        · exact .inl hexit
        · exact .inr (ha.tail (decides_of_mem_succs h hab hexit hstop))

/-- The entry decides, directly or not, on the instructions that control can reach. -/
theorem decides_iff_reaches {i : Nat} :
    ReflTransGen p.Decides .entry (.instr i) ↔ p.flow.Reaches .entry (.instr i) :=
  ⟨reaches_of_decides h, fun hi => (decides_of_reaches h hi).resolve_left (by simp)⟩

theorem not_decides_exit {b : FlowNode} : ¬p.Decides .exit b := by
  intro hb
  obtain ⟨s, hs, -⟩ := (decides_iff_climb h).1 hb
  rw [Procedure.flow, (inside_ofBody h).exit] at hs
  simp at hs

/-- What decides on something is not a return instruction. -/
theorem Decides.not_return {i : Nat} {b : FlowNode} (hb : p.Decides (.instr i) b) :
    ∃ ins, p.body[i]? = some ins ∧ ins.isReturn = false := by
  obtain ⟨s, hs, hb⟩ := (decides_iff_climb h).1 hb
  obtain ⟨ins, e, hins, he, rfl⟩ := mem_succs_instr.1 hs
  refine ⟨ins, hins, ?_⟩
  cases ins with
  | ret v =>
    -- a climb from the exit meets nothing
    rw [List.mem_singleton.1 he] at hb
    simp [mem_climb_succ] at hb
  | _ => rfl

end Procedure
end ForwardSlicing
