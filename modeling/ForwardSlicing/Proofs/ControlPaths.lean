import ForwardSlicing.Proofs.EntrySlice
import ForwardSlicing.Proofs.ImmediatePostDominator
/-!
# Control dependence by paths

A node decides on an instruction if, after one way out of the node, control cannot miss the instruction on its way to the
exit, while from the node itself it can. The climb from a successor meets the post-dominators of the successor in order,
and stops where those of the node begin (`mem_climb`). Where a successor cannot reach the exit it has no post-dominators,
and the climb meets the successor only. `decides_iff` puts both together, edge by edge.

`decides_iff_paths` is the definition by paths in full. `anchored_iff_reaches`: what the entry decides on, in one or more
steps, are the instructions that control can reach.
-/

namespace ForwardSlicing

open Relation FlowGraph

/-! ## Climbs -/

namespace FlowGraph

section Climbs
variable {g : FlowGraph} (hg : g.Inside) {a b s : FlowNode} {stop : Option FlowNode}
include hg

/-- A climb ends at once where the exit cannot be reached. -/
theorem climb_trapped (h : ¬g.ReachesExit s) (hstop : some s ≠ stop) (fuel : Nat) :
    climb g.immediatePostDominators stop (fuel + 1) s = [s] := by
  have hexit : s ≠ .exit := by
    rintro rfl
    exact h reachesExit_exit
  simp [climb_succ _ _ hstop hexit, entryOf_immediate_eq_none hg h]

/-- A climb from a node to one of its post-dominators meets the post-dominators of the first that are not
post-dominators of the second. -/
theorem mem_climb : ∀ (fuel : Nat) {n q : FlowNode}, g.WithinReach fuel n → g.PostDominates q n →
    (b ∈ climb g.immediatePostDominators (some q) fuel n ↔ g.PostDominates b n ∧ ¬g.PostDominates b q) := by
  intro fuel
  induction fuel with
  | zero =>
    intro n q hfuel hq
    obtain ⟨path, hpath, hlen⟩ := hfuel hq.reaches
    have hpos := hpath.pos
    omega
  | succ fuel ih =>
    intro n q hfuel hq
    by_cases hqn : q = n
    · subst hqn
      simp [mem_climb_succ]
    · -- another node post-dominates this one, so it is not the exit and has an immediate post-dominator
      have hstrict : g.StrictlyPostDominates q n := ⟨hq, hqn⟩
      obtain ⟨p, hp, himm⟩ := exists_entryOf_immediate hg hq.reaches hstrict.ne_exit
      have hup := ih (hfuel.up hg hp).2 (himm.nearest q hstrict)
      rw [climb_succ _ _ (by simpa using Ne.symm hqn) hstrict.ne_exit, hp, Option.map_some, Option.getD_some,
        List.mem_cons, hup, ← himm.strictly_iff]
      constructor
      · rintro (rfl | ⟨hb, hnot⟩)
        · exact ⟨postDominates_self hq.reaches, fun h => hqn (hq.antisymm h)⟩
        · exact ⟨hb.1, hnot⟩
      · rintro ⟨hb, hnot⟩
        by_cases hbn : b = n
        · exact .inl hbn
        · exact .inr ⟨⟨hb, hbn⟩, hnot⟩

/-- The nodes met on the climb from the target of an edge. -/
theorem mem_climb_edge (hs : s ∈ g.succs a) :
    b ∈ climb g.immediatePostDominators (entryOf g.immediatePostDominators a) (g.size + 2) s ↔
      (g.PostDominates b s ∧ ¬g.StrictlyPostDominates b a) ∨ (¬g.ReachesExit s ∧ b = s) := by
  by_cases hr : g.ReachesExit s
  · have ha : a ≠ .exit := by
      rintro rfl
      simp [hg.exit] at hs
    obtain ⟨q, hq, himm⟩ := exists_entryOf_immediate hg (hr.of_succ hs) ha
    rw [hq, mem_climb hg _ (withinReach_nodes hg s) (himm.strict.of_succ hs hr), himm.strictly_iff]
    simp [hr]
  · have hstop : some s ≠ entryOf g.immediatePostDominators a := fun h =>
      hr ((entryOf_immediatePostDominators hg).1 h.symm).strict.1.reachesExit
    have hnot : ¬g.PostDominates b s := fun h => hr h.reaches
    rw [climb_trapped hg hr hstop]
    simp [hr, hnot]

/-- More fuel changes nothing about a climb that has enough to reach the exit. -/
theorem climb_of_le : ∀ {fuel more : Nat} {n : FlowNode}, 0 < fuel → g.WithinReach fuel n → fuel ≤ more →
    climb g.immediatePostDominators stop more n = climb g.immediatePostDominators stop fuel n := by
  intro fuel
  induction fuel with
  | zero => exact fun h => absurd h (Nat.lt_irrefl 0)
  | succ fuel ih =>
    intro more n _ hfuel hle
    obtain ⟨more, rfl⟩ : ∃ k, more = k + 1 := ⟨more - 1, by omega⟩
    simp only [climb]
    cases hp : entryOf g.immediatePostDominators n with
    | none => rfl
    | some p =>
      obtain ⟨hpos, hup⟩ := hfuel.up hg hp
      have hrest : climb g.immediatePostDominators stop more p = climb g.immediatePostDominators stop fuel p :=
        ih hpos hup (by omega)
      simp only [hrest]

end Climbs
end FlowGraph

/-! ## Decisions -/

namespace Procedure

variable {p : Procedure}

section Paths
variable (h : badJump? p.body = none) {a b : FlowNode}
include h

/-- A node decides on what one of its successors cannot miss and it can miss itself, and on its successors that cannot
reach the exit. -/
theorem decides_iff : p.Decides a b ↔ ∃ s ∈ p.flow.succs a,
    (p.flow.PostDominates b s ∧ ¬p.flow.StrictlyPostDominates b a) ∨ (¬p.flow.ReachesExit s ∧ b = s) := by
  rw [decides_iff_climb h]
  exact exists_congr fun s => and_congr_right fun hs => mem_climb_edge (inside_ofBody h) hs

theorem decides_of_trapped (ha : ¬p.flow.ReachesExit a) : p.Decides a b ↔ b ∈ p.flow.succs a := by
  have htrapped : ∀ s ∈ p.flow.succs a, ¬p.flow.ReachesExit s := fun s hs hr => ha (hr.of_succ hs)
  rw [decides_iff h]
  constructor
  · rintro ⟨s, hs, ⟨hdom, -⟩ | ⟨-, rfl⟩⟩
    · exact absurd hdom.reaches (htrapped s hs)
    · exact hs
  · intro hb
    exact ⟨b, hb, .inr ⟨htrapped b hb, rfl⟩⟩

end Paths

/-- Control dependence is what paths to the exit say. If the exit can be reached from a node, the node decides on what it
can miss and one of its successors cannot, and on its successors that cannot reach the exit; otherwise it decides on all
its successors. Neither the entry nor the exit is decided on, no node is listed without dependents, and the climb from
each successor ends by itself, whatever fuel it has beyond the number of nodes. -/
theorem decides_iff_paths {g : FlowGraph} (h : FlowGraph.build p.body = .ok g) :
    (∀ a b, g.ReachesExit a → (p.Decides a b ↔ ∃ s ∈ g.succs a,
      (g.ReachesExit s ∧ g.PostDominates b s ∧ ¬g.StrictlyPostDominates b a) ∨ (¬g.ReachesExit s ∧ b = s))) ∧
    (∀ a b, ¬g.ReachesExit a → (p.Decides a b ↔ b ∈ g.succs a)) ∧
    (∀ a, ¬p.Decides a .entry ∧ ¬p.Decides a .exit) ∧
    (∀ e ∈ g.controlDependence, e.2 ≠ []) ∧
    (WellFounded fun q n => entryOf g.immediatePostDominators n = some q) ∧
    ∀ a, ∀ s ∈ g.succs a, ∀ fuel, g.size + 2 ≤ fuel →
      climb g.immediatePostDominators (entryOf g.immediatePostDominators a) fuel s =
        climb g.immediatePostDominators (entryOf g.immediatePostDominators a) (g.size + 2) s := by
  obtain ⟨hjumps, rfl⟩ := FlowGraph.build_eq_ok.1 h
  have hg : p.flow.Inside := inside_ofBody hjumps
  refine ⟨fun a b _ => ?_, fun a b ha => decides_of_trapped hjumps ha, fun a => ⟨?_, ?_⟩, fun e he => ?_,
    wellFounded_immediate hg, fun a s _ fuel hle => climb_of_le hg (by omega) (withinReach_nodes hg s) hle⟩
  · rw [decides_iff hjumps]
    refine exists_congr fun s => and_congr_right fun _ => or_congr_left ?_
    exact ⟨fun hb => ⟨hb.1.reaches, hb⟩, fun hb => hb.2⟩
  · intro hb
    obtain ⟨i, -, heq⟩ := hb.instr hjumps
    cases heq
  · intro hb
    obtain ⟨i, -, heq⟩ := hb.instr hjumps
    cases heq
  · have hne := (List.mem_filter.1 he).2
    simpa using hne

/-- A branch between a way to the exit and a loop without one decides on the loop only. So control that does not get lost in
the loop cannot miss the other way. -/
theorem decides_iff_paths_run : FlowGraph.build Sample.run.body = .ok Sample.run.flow ∧
    Sample.run.flow.ReachesExit (.instr 0) ∧ ¬Sample.run.flow.ReachesExit (.instr 1) ∧
    (ProcedureTable.ofProcedure Sample.run).dependents (.instr 0) = [.instr 1] ∧
    Sample.run.flow.StrictlyPostDominates (.instr 3) (.instr 0) := by
  have hbuild : FlowGraph.build Sample.run.body = .ok Sample.run.flow := by rfl
  have hg : Sample.run.flow.Inside := inside_ofBody (FlowGraph.build_eq_ok.1 hbuild).1
  have hbranch : Sample.run.flow.ReachesExit (.instr 0) := (mem_reachingExit hg).1 (by decide)
  have hback : Sample.run.flow.ReachesExit (.instr 3) := (mem_reachingExit hg).1 (by decide)
  have hloop : ¬Sample.run.flow.ReachesExit (.instr 1) := by
    rw [← mem_reachingExit hg]
    decide
  have hdependents : (ProcedureTable.ofProcedure Sample.run).dependents (.instr 0) = [.instr 1] := by decide
  refine ⟨hbuild, hbranch, hloop, hdependents, ?_⟩
  -- otherwise the branch would decide on the instruction, which it goes to on one side
  by_contra hmissed
  have hdecides : Sample.run.Decides (.instr 0) (.instr 3) := ((decides_iff_paths hbuild).1 _ _ hbranch).2
    ⟨.instr 3, by decide, .inl ⟨hback, postDominates_self hback, hmissed⟩⟩
  simp [Decides, hdependents] at hdecides

/-- What the entry decides on, in one or more steps, are the instructions that control can reach from the entry. -/
theorem anchored_iff_reaches {g : FlowGraph} (h : FlowGraph.build p.body = .ok g) (b : FlowNode) :
    TransGen p.Decides .entry b ↔ (∃ i < p.body.length, b = .instr i) ∧ g.Reaches .entry b := by
  obtain ⟨hjumps, rfl⟩ := FlowGraph.build_eq_ok.1 h
  constructor
  · intro hb
    obtain ⟨c, -, hcb⟩ := TransGen.tail'_iff.1 hb
    exact ⟨hcb.instr hjumps, reaches_of_decides hjumps hb.to_reflTransGen⟩
  · rintro ⟨⟨i, -, rfl⟩, hreach⟩
    refine (reflTransGen_iff_eq_or_transGen.1 ((decides_iff_reaches hjumps).2 hreach)).resolve_left ?_
    intro heq
    cases heq

/-- The entry decides on the loop, though there is no way out of it, and not on the call after the return. -/
theorem anchored_iff_reaches_run : FlowGraph.build Sample.run.body = .ok Sample.run.flow ∧
    ¬Sample.run.flow.ReachesExit (.instr 2) ∧ TransGen Sample.run.Decides .entry (.instr 2) ∧
    4 < Sample.run.body.length ∧ ¬TransGen Sample.run.Decides .entry (.instr 4) := by
  have hbuild : FlowGraph.build Sample.run.body = .ok Sample.run.flow := by rfl
  have hg : Sample.run.flow.Inside := inside_ofBody (FlowGraph.build_eq_ok.1 hbuild).1
  have hloop : ¬Sample.run.flow.ReachesExit (.instr 2) := by
    rw [← mem_reachingExit hg]
    decide
  have hreach : Sample.run.flow.Reaches .entry (.instr 2) :=
    .head (by decide : .instr 0 ∈ _) (.head (by decide : .instr 1 ∈ _) (.single (by decide)))
  have hdead : ∀ m ∈ Sample.run.flow.nodes, .instr 4 ∉ Sample.run.flow.succs m := by decide
  refine ⟨hbuild, hloop, (anchored_iff_reaches hbuild _).2 ⟨⟨2, by decide, rfl⟩, hreach⟩, by decide, fun hlost => ?_⟩
  rcases ReflTransGen.cases_tail ((anchored_iff_reaches hbuild _).1 hlost).2 with heq | ⟨m, -, hm⟩
  · cases heq
  · exact hdead m (hg.source m _ hm) hm

end Procedure
end ForwardSlicing
