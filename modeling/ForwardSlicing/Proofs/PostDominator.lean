import ForwardSlicing.Proofs.Flow
import ForwardSlicing.Proofs.Search
/-!
# Paths to the exit

A node post-dominates another if every path from that one to the exit passes it. `mem_reachingExit` and
`mem_reachingExitWithout` say that the computed sets are what paths give, and `postDominates_of_entryOf` that an
immediate post-dominator, where there is one, is a post-dominator other than the node itself.

Going up to a post-dominator makes the way to the exit shorter. So a climb is never cut short by its fuel:
`climb_closed` says that from every node it meets it goes on to the next, unless that is the exit or where it has to
stop.
-/

namespace ForwardSlicing.FlowGraph

open Relation

/-! ## Paths -/

/-- Control may go from the first node to the second. -/
def Reaches (g : FlowGraph) : FlowNode → FlowNode → Prop := ReflTransGen fun a b => b ∈ g.succs a

/-- The nodes along a path from a node to the exit. -/
inductive ExitPath (g : FlowGraph) : FlowNode → List FlowNode → Prop
  | exit : ExitPath g .exit [.exit]
  | step {a b : FlowNode} {path : List FlowNode} : b ∈ g.succs a → ExitPath g b path → ExitPath g a (a :: path)

/-- The exit can be reached from the node. -/
def ReachesExit (g : FlowGraph) (n : FlowNode) : Prop := ∃ path, g.ExitPath n path

/-- The exit can be reached from the second node, and every path there passes the first. -/
structure PostDominates (g : FlowGraph) (b n : FlowNode) : Prop where
  reaches : g.ReachesExit n
  passed : ∀ path, g.ExitPath n path → b ∈ path

/-- What holds of the flow graph of every body whose jumps stay inside. -/
structure Inside (g : FlowGraph) : Prop where
  source : ∀ a b, b ∈ g.succs a → a ∈ g.nodes
  target : ∀ a b, b ∈ g.succs a → b ∈ g.nodes
  entry : ∀ a, .entry ∉ g.succs a
  exit : g.succs .exit = []
  start : .exit ∈ g.succs .entry

section Paths
variable {g : FlowGraph} {n p : FlowNode} {path : List FlowNode}

theorem ExitPath.head_mem (h : g.ExitPath n path) : n ∈ path := by
  cases h with
  | exit => simp
  | step => simp

theorem ExitPath.pos (h : g.ExitPath n path) : 0 < path.length := List.length_pos_of_mem h.head_mem

/-- A path may be begun at any of its nodes. -/
theorem ExitPath.suffix (h : g.ExitPath n path) (hp : p ∈ path) : ∃ rest, g.ExitPath p rest ∧ rest <:+ path := by
  induction h with
  | exit =>
    rw [List.mem_singleton.1 hp]
    exact ⟨_, .exit, List.suffix_refl _⟩
  | @step a b path hab hpath ih =>
    rcases List.mem_cons.1 hp with rfl | hp
    · exact ⟨_, .step hab hpath, List.suffix_refl _⟩
    · obtain ⟨rest, hrest, hsuffix⟩ := ih hp
      exact ⟨rest, hrest, hsuffix.trans (List.suffix_cons a path)⟩

theorem ExitPath.reaches (h : g.ExitPath n path) (hp : p ∈ path) : g.Reaches n p := by
  induction h with
  | exit =>
    rw [List.mem_singleton.1 hp]
    exact .refl
  | step hab _ ih =>
    rcases List.mem_cons.1 hp with rfl | hp
    · exact .refl
    · exact .head hab (ih hp)

/-- A path that comes back to a node may leave out the way round. -/
theorem ExitPath.exists_nodup (h : g.ExitPath n path) : ∃ short, g.ExitPath n short ∧ short.Nodup := by
  induction h with
  | exit => exact ⟨_, .exit, by simp⟩
  | @step a b path hab _ ih =>
    obtain ⟨short, hshort, hn⟩ := ih
    by_cases ha : a ∈ short
    · obtain ⟨rest, hrest, hsuffix⟩ := hshort.suffix ha
      exact ⟨rest, hrest, hn.sublist hsuffix.sublist⟩
    · exact ⟨a :: short, .step hab hshort, List.nodup_cons.2 ⟨ha, hn⟩⟩

theorem ExitPath.mem_nodes (hg : g.Inside) (h : g.ExitPath n path) : ∀ a ∈ path, a ∈ g.nodes := by
  induction h with
  | exit => simp [nodes]
  | step hab _ ih =>
    intro c hc
    rcases List.mem_cons.1 hc with rfl | hc
    · exact hg.source _ _ hab
    · exact ih c hc

/-- The node has a way to the exit within a number of nodes, if it has one at all. -/
def WithinReach (g : FlowGraph) (fuel : Nat) (n : FlowNode) : Prop :=
  g.ReachesExit n → ∃ path, g.ExitPath n path ∧ path.length ≤ fuel

/-- No way to the exit has to be longer than there are nodes. -/
theorem withinReach_nodes (hg : g.Inside) (n : FlowNode) : g.WithinReach (g.size + 2) n := by
  rintro ⟨path, hpath⟩
  obtain ⟨short, hshort, hn⟩ := hpath.exists_nodup
  refine ⟨short, hshort, ?_⟩
  calc short.length ≤ g.nodes.length := (hn.subperm (hshort.mem_nodes hg)).length_le
    _ = g.size + 2 := by simp [nodes]

/-- The way to the exit is shorter from another post-dominator. -/
theorem PostDominates.exists_shorter (h : g.PostDominates p n) (hne : p ≠ n) (hpath : g.ExitPath n path) :
    ∃ rest, g.ExitPath p rest ∧ rest.length < path.length := by
  have hp := h.passed path hpath
  cases hpath with
  | exit => exact absurd (List.mem_singleton.1 hp) hne
  | step _ hpath =>
    obtain ⟨rest, hrest, hsuffix⟩ := hpath.suffix ((List.mem_cons.1 hp).resolve_left hne)
    have hle := hsuffix.length_le
    exact ⟨rest, hrest, by simp only [List.length_cons]; omega⟩

theorem PostDominates.reaches_self (h : g.PostDominates p n) : g.Reaches n p := by
  obtain ⟨path, hpath⟩ := h.reaches
  exact hpath.reaches (h.passed path hpath)

/-- Nothing leads to the entry, so it post-dominates no other node. -/
theorem PostDominates.ne_entry (hg : g.Inside) (h : g.PostDominates p n) (hne : p ≠ n) : p ≠ .entry := by
  rintro rfl
  rcases ReflTransGen.cases_tail h.reaches_self with heq | ⟨m, -, hm⟩
  · exact hne heq
  · exact hg.entry m hm

/-- The entry may be left straight to the exit, so nothing else post-dominates it. -/
theorem PostDominates.eq_exit (hg : g.Inside) (h : g.PostDominates p .entry) (hne : p ≠ .entry) : p = .exit := by
  have hp := h.passed _ (.step hg.start .exit)
  simpa [hne] using hp

end Paths

theorem inside_ofBody {body : List Instruction} (h : badJump? body = none) : (ofBody body).Inside where
  source a b hb := by
    obtain ⟨e, he, -⟩ := List.mem_map.1 hb
    obtain ⟨he, hsource⟩ := List.mem_filter.1 he
    rw [← of_decide_eq_true hsource]
    rcases mem_edges_ofBody.1 he with he | ⟨i, ins, hi, he⟩
    · simp [(mem_entryEdges he).1, nodes]
    · rw [(mem_instructionEdges he).1]
      exact instr_mem_nodes.2 (List.getElem?_eq_some_iff.1 hi).1
  target a b hb := by
    obtain ⟨e, he, rfl⟩ := List.mem_map.1 hb
    exact target_mem_nodes h (List.mem_filter.1 he).1
  entry a hb := by
    obtain ⟨e, he, htarget⟩ := List.mem_map.1 hb
    rcases target_cases h (List.mem_filter.1 he).1 with hexit | ⟨i, -, hi⟩
    · cases hexit.symm.trans htarget
    · cases hi.symm.trans htarget
  exit := by
    rw [succs, edgesFrom, List.map_eq_nil_iff, List.filter_eq_nil_iff]
    intro e he hsource
    rw [decide_eq_true_eq] at hsource
    rcases mem_edges_ofBody.1 he with he | ⟨i, ins, -, he⟩
    · cases (mem_entryEdges he).1.symm.trans hsource
    · cases (mem_instructionEdges he).1.symm.trans hsource
  start := by
    by_cases hsize : body.length = 0
    · simp [succs, edgesFrom, ofBody, entryEdges, hsize]
    · simp [succs, edgesFrom, ofBody, entryEdges, hsize]

/-! ## The computed sets -/

section Sets
variable {g : FlowGraph} {n b : FlowNode}

theorem mem_preds : n ∈ g.preds b ↔ b ∈ g.succs n := by
  simp only [preds, succs, edgesFrom, List.mem_map, List.mem_filter, decide_eq_true_eq]
  constructor
  · rintro ⟨e, ⟨he, rfl⟩, rfl⟩
    exact ⟨e, ⟨he, rfl⟩, rfl⟩
  · rintro ⟨e, ⟨he, rfl⟩, rfl⟩
    exact ⟨e, ⟨he, rfl⟩, rfl⟩

/-- What is found backwards from the exit through nodes with a property is what has a path of such nodes. -/
theorem mem_explore_exit (hg : g.Inside) {next : FlowNode → List FlowNode} {P : FlowNode → Prop} (hexit : P .exit)
    (hnext : ∀ m a, a ∈ next m ↔ m ∈ g.succs a ∧ P a) :
    n ∈ explore next (g.size + 2) [.exit] [.exit] ↔ ∃ path, g.ExitPath n path ∧ ∀ a ∈ path, P a := by
  have hfin : {a | a ∈ g.nodes}.Finite := List.finite_toSet g.nodes
  have hcard : {a | a ∈ g.nodes}.ncard ≤ g.size + 2 := by
    have hsub : {a | a ∈ g.nodes} = (g.nodes.toFinset : Set FlowNode) := by ext; simp
    rw [hsub, Set.ncard_coe_finset]
    exact (List.toFinset_card_le g.nodes).trans (by simp [nodes])
  rw [Search.mem_explore hfin (fun a _ b hb => hg.source b a ((hnext a b).1 hb).1) (by simp [nodes]) (by simp) hcard]
  constructor
  · intro hn
    refine Search.reach_subset (S := {n | ∃ path, g.ExitPath n path ∧ ∀ a ∈ path, P a}) ?_ ?_ hn
    · intro a ha
      rw [List.mem_singleton.1 ha]
      exact ⟨_, .exit, by simpa using hexit⟩
    · rintro m ⟨path, hpath, hP⟩ a ha
      obtain ⟨hm, ha⟩ := (hnext m a).1 ha
      exact ⟨_, .step hm hpath, by simpa using ⟨ha, hP⟩⟩
  · rintro ⟨path, hpath, hP⟩
    induction hpath with
    | exit => exact Search.mem_reach_of_mem (by simp)
    | step hab _ ih =>
      simp only [List.mem_cons, forall_eq_or_imp] at hP
      exact Search.reach_step (ih hP.2) ((hnext _ _).2 ⟨hab, hP.1⟩)

theorem mem_reachingExit (hg : g.Inside) : n ∈ g.reachingExit ↔ g.ReachesExit n := by
  rw [reachingExit, mem_explore_exit (P := fun _ => True) hg trivial (by simp [mem_preds])]
  simp [ReachesExit]

theorem mem_reachingExitWithout (hg : g.Inside) :
    n ∈ g.reachingExitWithout b ↔ ∃ path, g.ExitPath n path ∧ b ∉ path := by
  unfold reachingExitWithout
  split
  case isTrue hb =>
    subst hb
    simp only [List.not_mem_nil, false_iff, not_exists, not_and, not_not]
    intro path hpath
    induction hpath with
    | exit => simp
    | step _ _ ih => exact List.mem_cons_of_mem _ ih
  case isFalse hb =>
    rw [mem_explore_exit (P := (· ≠ b)) hg (Ne.symm hb) (by simp [mem_preds])]
    exact exists_congr fun path => and_congr_right fun _ =>
      ⟨fun h hm => h b hm rfl, fun h a ha hab => h (hab ▸ ha)⟩

theorem postDominates_of_mem (hg : g.Inside) {ds : List FlowNode} (h : (n, ds) ∈ g.postDominators) (hb : b ∈ ds) :
    g.PostDominates b n := by
  obtain ⟨m, hm, he⟩ := List.mem_map.1 h
  obtain ⟨rfl, rfl⟩ := Prod.mk.inj he
  obtain ⟨⟨b', reaching⟩, hb', rfl⟩ := List.mem_map.1 hb
  obtain ⟨hmem, hnot⟩ := List.mem_filter.1 hb'
  obtain ⟨b, -, he⟩ := List.mem_map.1 hmem
  obtain ⟨rfl, rfl⟩ := Prod.mk.inj he
  simp only [Bool.not_eq_true', List.contains_eq_mem, decide_eq_false_iff_not, mem_reachingExitWithout hg, not_exists,
    not_and, not_not] at hnot
  have hreach := (List.mem_filter.1 hm).2
  rw [List.contains_iff_mem, mem_reachingExit hg] at hreach
  exact ⟨hreach, hnot⟩

/-- An immediate post-dominator is a post-dominator other than the node itself. -/
theorem postDominates_of_entryOf (hg : g.Inside) (h : entryOf g.immediatePostDominators n = some b) :
    g.PostDominates b n ∧ b ≠ n := by
  obtain ⟨⟨m, ds⟩, hm, hb⟩ := List.mem_filterMap.1 (mem_of_entryOf h)
  dsimp only at hb
  split at hb
  · cases hb
  · obtain ⟨p, hp, he⟩ := Option.map_eq_some_iff.1 hb
    obtain ⟨rfl, rfl⟩ := Prod.mk.inj he
    have htest := List.find?_some hp
    simp only [Bool.and_eq_true, decide_eq_true_eq] at htest
    exact ⟨postDominates_of_mem hg hm (List.mem_of_find?_eq_some hp), htest.1⟩

end Sets

/-! ## Climbs -/

section Climbs
variable {g : FlowGraph} {stop : Option FlowNode}

theorem climb_succ (ipdom : List (FlowNode × FlowNode)) (fuel : Nat) {n : FlowNode} (hstop : some n ≠ stop)
    (hexit : n ≠ .exit) : climb ipdom stop (fuel + 1) n =
      n :: ((entryOf ipdom n).map (climb ipdom stop fuel)).getD [] := by
  rw [climb, if_neg (not_or.2 ⟨hstop, hexit⟩)]
  cases entryOf ipdom n <;> rfl

/-- What a climb meets is where it begins, unless it stops there, or is met on the climb from the next node. -/
theorem mem_climb_succ {ipdom : List (FlowNode × FlowNode)} {fuel : Nat} {n m : FlowNode} :
    m ∈ climb ipdom stop (fuel + 1) n ↔ some n ≠ stop ∧ n ≠ .exit ∧
      (m = n ∨ ∃ p, entryOf ipdom n = some p ∧ m ∈ climb ipdom stop fuel p) := by
  by_cases h : some n ≠ stop ∧ n ≠ .exit
  · rw [climb_succ ipdom fuel h.1 h.2]
    cases entryOf ipdom n with
    | none => simp [h]
    | some p => simp [h]
  · rw [climb, if_pos (by tauto)]
    simp only [List.not_mem_nil, false_iff]
    tauto

theorem not_mem_climb_zero {ipdom : List (FlowNode × FlowNode)} {n m : FlowNode} : m ∉ climb ipdom stop 0 n := by
  simp [climb]

/-- Control may go from where a climb begins to every node that it meets. -/
theorem reaches_of_mem_climb (hg : g.Inside) : ∀ (fuel : Nat) {n m : FlowNode},
    m ∈ climb g.immediatePostDominators stop fuel n → g.Reaches n m := by
  intro fuel
  induction fuel with
  | zero => exact fun hm => absurd hm not_mem_climb_zero
  | succ fuel ih =>
    intro n m hm
    rcases (mem_climb_succ.1 hm).2.2 with rfl | ⟨p, hp, hm⟩
    · exact .refl
    · exact (postDominates_of_entryOf hg hp).1.reaches_self.trans (ih hm)

/-- A climb that begins at a node other than the entry meets instructions only: it stops at the exit, and the entry
post-dominates no other node. -/
theorem instr_of_mem_climb (hg : g.Inside) : ∀ (fuel : Nat) {n m : FlowNode}, n ∈ g.nodes → n ≠ .entry →
    m ∈ climb g.immediatePostDominators stop fuel n → ∃ i < g.size, m = .instr i := by
  intro fuel
  induction fuel with
  | zero => exact fun _ _ hm => absurd hm not_mem_climb_zero
  | succ fuel ih =>
    intro n m hn hentry hm
    obtain ⟨-, hexit, rfl | ⟨p, hp, hm⟩⟩ := mem_climb_succ.1 hm
    · cases m with
      | entry => exact absurd rfl hentry
      | exit => exact absurd rfl hexit
      | instr i => exact ⟨i, instr_mem_nodes.1 hn, rfl⟩
    · obtain ⟨hdom, hne⟩ := postDominates_of_entryOf hg hp
      exact ih (immediatePostDominator_mem_nodes (mem_of_entryOf hp)) (hdom.ne_entry hg hne) hm

theorem mem_climb_self {ipdom : List (FlowNode × FlowNode)} {n : FlowNode} (hstop : some n ≠ stop) (hexit : n ≠ .exit)
    (fuel : Nat) : n ∈ climb ipdom stop (fuel + 1) n :=
  mem_climb_succ.2 ⟨hstop, hexit, .inl rfl⟩

/-- One step up brings the exit closer. -/
theorem WithinReach.up (hg : g.Inside) {fuel : Nat} {n p : FlowNode} (hn : g.WithinReach (fuel + 1) n)
    (hp : entryOf g.immediatePostDominators n = some p) : 0 < fuel ∧ g.WithinReach fuel p := by
  obtain ⟨hdom, hne⟩ := postDominates_of_entryOf hg hp
  obtain ⟨path, hpath, hlen⟩ := hn hdom.reaches
  obtain ⟨rest, hrest, hlt⟩ := hdom.exists_shorter hne hpath
  have hpos := hrest.pos
  exact ⟨by omega, fun _ => ⟨rest, hrest, by omega⟩⟩

/-- A climb goes on from every node that it meets, unless to the exit or to where it has to stop. -/
theorem climb_closed (hg : g.Inside) : ∀ (fuel : Nat) {n m p : FlowNode}, g.WithinReach fuel n →
    m ∈ climb g.immediatePostDominators stop fuel n → entryOf g.immediatePostDominators m = some p →
    some p = stop ∨ p = .exit ∨ p ∈ climb g.immediatePostDominators stop fuel n := by
  intro fuel
  induction fuel with
  | zero => exact fun _ hm => absurd hm not_mem_climb_zero
  | succ fuel ih =>
    intro n m p hfuel hm hp
    obtain ⟨hstop, hexit, rfl | ⟨q, hq, hm⟩⟩ := mem_climb_succ.1 hm
    -- the first node of the climb: the next one is met because the fuel lasts for it
    · obtain ⟨hpos, -⟩ := hfuel.up hg hp
      obtain ⟨fuel, rfl⟩ := Nat.exists_eq_add_one.2 hpos
      by_cases hpstop : some p = stop
      · exact .inl hpstop
      · by_cases hpexit : p = .exit
        · exact .inr (.inl hpexit)
        · exact .inr (.inr (mem_climb_succ.2 ⟨hstop, hexit, .inr ⟨p, hp, mem_climb_self hpstop hpexit fuel⟩⟩))
    · rcases ih (hfuel.up hg hq).2 hm hp with h | h | h
      · exact .inl h
      · exact .inr (.inl h)
      · exact .inr (.inr (mem_climb_succ.2 ⟨hstop, hexit, .inr ⟨q, hq, h⟩⟩))

end Climbs
end ForwardSlicing.FlowGraph
