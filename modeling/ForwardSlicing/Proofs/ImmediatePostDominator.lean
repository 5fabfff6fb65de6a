import ForwardSlicing.Proofs.PostDominator
/-!
# Immediate post-dominators

Post-dominance is an order on the nodes that can reach the exit. Take any path from a node to the exit: all proper
post-dominators of the node lie on it, and the first one of them is post-dominated by the others, since the way to it may
be continued by any path from there (`exists_immediate`). So a node that can reach the exit and is not the exit has exactly
one immediate post-dominator, and `entryOf_immediatePostDominators` says that the table has it. Following the table brings
the exit closer and ends (`wellFounded_immediate`), and it ends at the exit. `immediatePostDominators_paths` says all of
this by paths alone.
-/

namespace ForwardSlicing

open Relation

namespace FlowGraph

section Order
variable {g : FlowGraph} {a b n p q s : FlowNode} {path : List FlowNode}

/-! ## Post-dominance as an order -/

theorem ExitPath.exit_mem (h : g.ExitPath n path) : .exit ∈ path := by
  induction h with
  | exit => simp
  | step _ _ ih => exact List.mem_cons_of_mem _ ih

theorem ReachesExit.of_mem (h : g.ExitPath n path) (hb : b ∈ path) : g.ReachesExit b := by
  obtain ⟨rest, hrest, -⟩ := h.suffix hb
  exact ⟨rest, hrest⟩

theorem ReachesExit.of_succ (hs : s ∈ g.succs a) (h : g.ReachesExit s) : g.ReachesExit a := by
  obtain ⟨path, hpath⟩ := h
  exact ⟨_, .step hs hpath⟩

theorem reachesExit_exit : g.ReachesExit .exit := ⟨_, .exit⟩

theorem postDominates_self (h : g.ReachesExit n) : g.PostDominates n n := ⟨h, fun _ hpath => hpath.head_mem⟩

theorem postDominates_exit (h : g.ReachesExit n) : g.PostDominates .exit n := ⟨h, fun _ hpath => hpath.exit_mem⟩

theorem PostDominates.reachesExit (h : g.PostDominates b n) : g.ReachesExit b := by
  obtain ⟨path, hpath⟩ := h.reaches
  exact .of_mem hpath (h.passed path hpath)

theorem PostDominates.trans (hb : g.PostDominates b p) (hp : g.PostDominates p n) : g.PostDominates b n := by
  refine ⟨hp.reaches, fun path hpath => ?_⟩
  obtain ⟨rest, hrest, hsuffix⟩ := hpath.suffix (hp.passed path hpath)
  exact hsuffix.subset (hb.passed rest hrest)

theorem PostDominates.antisymm (hb : g.PostDominates b n) (hn : g.PostDominates n b) : b = n := by
  by_contra hne
  -- a path that passes no node twice passes `b` after `n`, and then `n` again
  obtain ⟨path, hpath⟩ := hb.reaches
  obtain ⟨short, hshort, hnodup⟩ := hpath.exists_nodup
  have hmem := hb.passed short hshort
  cases hshort with
  | exit => exact hne (List.mem_singleton.1 hmem)
  | step _ htail =>
    obtain ⟨rest, hrest, hsuffix⟩ := htail.suffix ((List.mem_cons.1 hmem).resolve_left hne)
    exact (List.nodup_cons.1 hnodup).1 (hsuffix.subset (hn.passed rest hrest))

/-- The post-dominator is not the node itself. -/
def StrictlyPostDominates (g : FlowGraph) (b n : FlowNode) : Prop := g.PostDominates b n ∧ b ≠ n

/-- What a node cannot miss, its successors cannot miss. -/
theorem StrictlyPostDominates.of_succ (h : g.StrictlyPostDominates b a) (hs : s ∈ g.succs a) (hr : g.ReachesExit s) :
    g.PostDominates b s :=
  ⟨hr, fun _ hpath => (List.mem_cons.1 (h.1.passed _ (.step hs hpath))).resolve_left h.2⟩

theorem StrictlyPostDominates.ne_exit (h : g.StrictlyPostDominates b n) : n ≠ .exit := by
  rintro rfl
  exact h.2 (List.mem_singleton.1 (h.1.passed _ .exit))

/-! ## The nearest one -/

/-- A proper post-dominator that all other ones post-dominate. -/
structure ImmediatelyPostDominates (g : FlowGraph) (p n : FlowNode) : Prop where
  strict : g.StrictlyPostDominates p n
  nearest : ∀ q, g.StrictlyPostDominates q n → g.PostDominates q p

theorem ImmediatelyPostDominates.unique (hp : g.ImmediatelyPostDominates p n) (hq : g.ImmediatelyPostDominates q n) :
    p = q :=
  (hq.nearest p hp.strict).antisymm (hp.nearest q hq.strict)

/-- To post-dominate a node properly is to post-dominate its immediate post-dominator. -/
theorem ImmediatelyPostDominates.strictly_iff (hp : g.ImmediatelyPostDominates p n) :
    g.StrictlyPostDominates b n ↔ g.PostDominates b p := by
  refine ⟨hp.nearest b, fun hb => ⟨hb.trans hp.strict.1, ?_⟩⟩
  rintro rfl
  exact hp.strict.2 (hp.strict.1.antisymm hb)

/-- The first node with a property on a path may be followed by any other path from there. -/
theorem ExitPath.exists_first {P : FlowNode → Prop} (h : g.ExitPath n path) (hP : ∃ b ∈ path, P b) :
    ∃ p, P p ∧ g.ReachesExit p ∧
      ∀ rest, g.ExitPath p rest → ∃ whole, g.ExitPath n whole ∧ ∀ q ∈ whole, P q → q ∈ rest := by
  induction h with
  | exit =>
    obtain ⟨b, hb, hPb⟩ := hP
    rw [List.mem_singleton.1 hb] at hPb
    exact ⟨_, hPb, reachesExit_exit, fun rest hrest => ⟨rest, hrest, fun _ hq _ => hq⟩⟩
  | @step a s path hs hpath ih =>
    by_cases ha : P a
    · exact ⟨a, ha, ⟨_, .step hs hpath⟩, fun rest hrest => ⟨rest, hrest, fun _ hq _ => hq⟩⟩
    · obtain ⟨b, hb, hPb⟩ := hP
      have htail : b ∈ path := (List.mem_cons.1 hb).resolve_left fun heq => ha (heq ▸ hPb)
      obtain ⟨p, hp, hreach, hfollow⟩ := ih ⟨b, htail, hPb⟩
      refine ⟨p, hp, hreach, fun rest hrest => ?_⟩
      obtain ⟨whole, hwhole, hmem⟩ := hfollow rest hrest
      refine ⟨a :: whole, .step hs hwhole, fun q hq hPq => ?_⟩
      exact hmem q ((List.mem_cons.1 hq).resolve_left fun heq => ha (heq ▸ hPq)) hPq

theorem exists_immediate (hn : g.ReachesExit n) (hne : n ≠ .exit) : ∃ p, g.ImmediatelyPostDominates p n := by
  obtain ⟨path, hpath⟩ := hn
  have hexit : g.StrictlyPostDominates .exit n := ⟨postDominates_exit ⟨path, hpath⟩, hne.symm⟩
  obtain ⟨p, hp, hreach, hfollow⟩ := hpath.exists_first (P := (g.StrictlyPostDominates · n)) ⟨_, hpath.exit_mem, hexit⟩
  refine ⟨p, hp, fun q hq => ⟨hreach, fun rest hrest => ?_⟩⟩
  -- a path from `p` that missed `q` would give a path from `n` that misses `q`
  obtain ⟨whole, hwhole, hmem⟩ := hfollow rest hrest
  exact hmem q (hq.1.passed whole hwhole) hq

end Order

/-! ## The tables -/

section Tables
variable {g : FlowGraph} {b n p : FlowNode}

theorem exists_entryOf {β : Type} {table : List (FlowNode × β)} {v : β} (h : (n, v) ∈ table) :
    ∃ w, entryOf table n = some w := by
  have hfound : (table.find? (·.1 = n)).isSome = true := List.find?_isSome.2 ⟨_, h, by simp⟩
  obtain ⟨e, he⟩ := Option.isSome_iff_exists.1 hfound
  exact ⟨e.2, by rw [entryOf, he, Option.map_some]⟩

variable (hg : g.Inside)
include hg

theorem mem_postDominators {ds : List FlowNode} (h : (n, ds) ∈ g.postDominators) :
    b ∈ ds ↔ g.PostDominates b n := by
  refine ⟨postDominates_of_mem hg h, fun hb => ?_⟩
  obtain ⟨m, -, he⟩ := List.mem_map.1 h
  obtain ⟨rfl, rfl⟩ := Prod.mk.inj he
  obtain ⟨path, hpath⟩ := hb.reaches
  have hnode : b ∈ g.nodes := hpath.mem_nodes hg b (hb.passed path hpath)
  refine List.mem_map.2 ⟨(b, g.reachingExitWithout b), List.mem_filter.2 ⟨List.mem_map.2 ⟨b, hnode, rfl⟩, ?_⟩, rfl⟩
  simp only [Bool.not_eq_true', List.contains_eq_mem, decide_eq_false_iff_not, mem_reachingExitWithout hg, not_exists,
    not_and, not_not]
  exact hb.passed

theorem exists_postDominators (hn : g.ReachesExit n) : ∃ ds, (n, ds) ∈ g.postDominators := by
  obtain ⟨path, hpath⟩ := hn
  have hnode : n ∈ g.nodes := hpath.mem_nodes hg n hpath.head_mem
  have hreach : g.reachingExit.contains n = true := by
    rw [List.contains_iff_mem, mem_reachingExit hg]
    exact ⟨path, hpath⟩
  exact ⟨_, List.mem_map.2 ⟨n, List.mem_filter.2 ⟨hnode, hreach⟩, rfl⟩⟩

/-- The entry of a node that can reach the exit has its post-dominators. -/
theorem mem_entryOf_postDominators (hn : g.ReachesExit n) :
    b ∈ (entryOf g.postDominators n).getD [] ↔ g.PostDominates b n := by
  obtain ⟨ds, hds⟩ := exists_postDominators hg hn
  obtain ⟨ds', hds'⟩ := exists_entryOf hds
  rw [hds', Option.getD_some, mem_postDominators hg (mem_of_entryOf hds')]

/-- The test that finds the nearest post-dominator. -/
theorem nearest_test {ds : List FlowNode} (hds : (n, ds) ∈ g.postDominators) (hp : p ∈ ds) :
    (p ≠ n && ds.all fun q => q = n || q = p || ((entryOf g.postDominators p).getD []).contains q) = true ↔
      g.ImmediatelyPostDominates p n := by
  have hdom : g.PostDominates p n := (mem_postDominators hg hds).1 hp
  simp only [Bool.and_eq_true, decide_eq_true_eq, List.all_eq_true, Bool.or_eq_true, List.contains_iff_mem,
    mem_postDominators hg hds, mem_entryOf_postDominators hg hdom.reachesExit]
  constructor
  · rintro ⟨hne, hall⟩
    refine ⟨⟨hdom, hne⟩, fun q hq => ?_⟩
    rcases hall q hq.1 with (rfl | rfl) | h
    · exact absurd rfl hq.2
    · exact postDominates_self hdom.reachesExit
    · exact h
  · rintro ⟨hstrict, hnearest⟩
    refine ⟨hstrict.2, fun q hq => ?_⟩
    by_cases hqn : q = n
    · exact .inl (.inl hqn)
    · exact .inr (hnearest q ⟨hq, hqn⟩)

/-- The table has the immediate post-dominator of every node that has one, and nothing else. -/
theorem entryOf_immediatePostDominators :
    entryOf g.immediatePostDominators n = some p ↔ g.ImmediatelyPostDominates p n := by
  have hentry : ∀ q, (n, q) ∈ g.immediatePostDominators → g.ImmediatelyPostDominates q n := by
    intro q hq
    obtain ⟨⟨m, ds⟩, hds, hq⟩ := List.mem_filterMap.1 hq
    dsimp only at hq
    split at hq
    · cases hq
    · obtain ⟨q', hfound, he⟩ := Option.map_eq_some_iff.1 hq
      obtain ⟨rfl, rfl⟩ := Prod.mk.inj he
      have htest := List.find?_some hfound
      exact (nearest_test hg hds (List.mem_of_find?_eq_some hfound)).1 htest
  refine ⟨fun h => hentry p (mem_of_entryOf h), fun hp => ?_⟩
  obtain ⟨ds, hds⟩ := exists_postDominators hg hp.strict.1.reaches
  have hmem : p ∈ ds := (mem_postDominators hg hds).2 hp.strict.1
  -- some node passes the test, so an entry is made
  obtain ⟨q, hq⟩ : ∃ q, nearest g.postDominators n ds = some q := by
    rw [← Option.isSome_iff_exists, nearest, List.find?_isSome]
    exact ⟨p, hmem, (nearest_test hg hds hmem).2 hp⟩
  have hrow : (n, q) ∈ g.immediatePostDominators :=
    List.mem_filterMap.2 ⟨_, hds, by simp [hp.strict.ne_exit, hq]⟩
  obtain ⟨w, hw⟩ := exists_entryOf hrow
  rw [hw, (hentry w (mem_of_entryOf hw)).unique hp]

theorem exists_entryOf_immediate (hn : g.ReachesExit n) (hne : n ≠ .exit) :
    ∃ p, entryOf g.immediatePostDominators n = some p ∧ g.ImmediatelyPostDominates p n := by
  obtain ⟨p, hp⟩ := exists_immediate hn hne
  exact ⟨p, (entryOf_immediatePostDominators hg).2 hp, hp⟩

theorem entryOf_immediate_eq_none (hn : ¬g.ReachesExit n) : entryOf g.immediatePostDominators n = none := by
  rw [Option.eq_none_iff_forall_ne_some]
  intro p hp
  exact hn ((entryOf_immediatePostDominators hg).1 hp).strict.1.reaches

/-- Following the table from any node comes to an end. -/
theorem wellFounded_immediate : WellFounded fun p n => entryOf g.immediatePostDominators n = some p := by
  have hacc : ∀ (fuel : Nat) (n : FlowNode), g.WithinReach fuel n →
      Acc (fun p n => entryOf g.immediatePostDominators n = some p) n := by
    intro fuel
    induction fuel with
    | zero =>
      intro n hn
      refine ⟨n, fun p hp => ?_⟩
      obtain ⟨path, hpath, hlen⟩ := hn ((entryOf_immediatePostDominators hg).1 hp).strict.1.reaches
      have hpos := hpath.pos
      omega
    | succ fuel ih => exact fun n hn => ⟨n, fun p hp => ih p (hn.up hg hp).2⟩
  exact ⟨fun n => hacc _ n (withinReach_nodes hg n)⟩

/-- Following the table from a node that can reach the exit leads there. -/
theorem follow_to_exit (hn : g.ReachesExit n) :
    ReflTransGen (fun a b => entryOf g.immediatePostDominators a = some b) n .exit := by
  induction n using (wellFounded_immediate hg).induction with
  | _ n ih =>
    by_cases hne : n = .exit
    · rw [hne]
    · obtain ⟨p, hp, himm⟩ := exists_entryOf_immediate hg hn hne
      exact .head hp (ih p hp himm.strict.1.reachesExit)

end Tables

theorem nodup_keys_immediate (g : FlowGraph) : (g.immediatePostDominators.map (·.1)).Nodup := by
  have hrows : g.postDominators.Pairwise fun a b => a.1 ≠ b.1 := by
    rw [postDominators, List.pairwise_map]
    exact (nodup_nodes g).filter _
  rw [List.Nodup, List.pairwise_map, immediatePostDominators, List.pairwise_filterMap]
  refine hrows.imp ?_
  rintro ⟨n, ds⟩ ⟨m, es⟩ hne a ha b hb
  dsimp only at ha hb
  -- a row keeps its node
  split at ha
  · cases ha
  · split at hb
    · cases hb
    · obtain ⟨-, -, rfl⟩ := Option.map_eq_some_iff.1 ha
      obtain ⟨-, -, rfl⟩ := Option.map_eq_some_iff.1 hb
      exact hne

/-- The table of immediate post-dominators is what paths to the exit say. It has one entry for each node that can reach the
exit, the exit itself aside. The entry is another node that lies on every path from the node to the exit, and whatever else
lies on all these paths lies on every path from the entry too. So following the entries leads to the exit. -/
theorem immediatePostDominators_paths {body : List Instruction} {g : FlowGraph} (h : build body = .ok g) :
    (∀ n, n ≠ .exit → ((∃ p, entryOf g.immediatePostDominators n = some p) ↔ ∃ path, g.ExitPath n path)) ∧
    (g.immediatePostDominators.map (·.1)).Nodup ∧
    (∀ n p, n ≠ .exit → entryOf g.immediatePostDominators n = some p →
      p ≠ n ∧ (∀ path, g.ExitPath n path → p ∈ path) ∧
      ∀ q, q ≠ n → (∀ path, g.ExitPath n path → q ∈ path) → ∀ path, g.ExitPath p path → q ∈ path) ∧
    ∀ n, (∃ path, g.ExitPath n path) →
      ReflTransGen (fun a b => entryOf g.immediatePostDominators a = some b) n .exit := by
  obtain ⟨hjumps, rfl⟩ := build_eq_ok.1 h
  have hg : (ofBody body).Inside := inside_ofBody hjumps
  refine ⟨fun n hne => ⟨?_, fun hn => ?_⟩, nodup_keys_immediate _, fun n p _ hp => ?_, fun n hn => follow_to_exit hg hn⟩
  · rintro ⟨p, hp⟩
    exact ((entryOf_immediatePostDominators hg).1 hp).strict.1.reaches
  · obtain ⟨p, hp, -⟩ := exists_entryOf_immediate hg hn hne
    exact ⟨p, hp⟩
  · have himm := (entryOf_immediatePostDominators hg).1 hp
    refine ⟨himm.strict.2, himm.strict.1.passed, fun q hq hpassed => ?_⟩
    exact (himm.nearest q ⟨⟨himm.strict.1.reaches, hpassed⟩, hq⟩).passed

end FlowGraph

/-- A loop that is entered at both of its branches, one of which may also leave it for a loop without a way out, and a jump
that nothing leads to. -/
def Sample.tangled : List Instruction :=
  [.branch [1] 2, .branch [1] 5, .branch [1] 1, .ret none, .goto 3, .goto 5]

/-- Of the two branches of the loop only the second has to be passed. The jump that is never reached has an entry, and the
endless loop has none. -/
theorem FlowGraph.immediatePostDominators_paths_tangled :
    build Sample.tangled = .ok (ofBody Sample.tangled) ∧
    (ofBody Sample.tangled).immediatePostDominators =
      [(.entry, .exit), (.instr 0, .instr 2), (.instr 1, .instr 2), (.instr 2, .instr 3), (.instr 3, .exit),
        (.instr 4, .instr 3)] ∧
    (∀ path, (ofBody Sample.tangled).ExitPath (.instr 0) path → .instr 2 ∈ path) ∧
    (∃ path, (ofBody Sample.tangled).ExitPath (.instr 0) path ∧ .instr 1 ∉ path) ∧
    ¬∃ path, (ofBody Sample.tangled).ExitPath (.instr 5) path := by
  have hbuild : build Sample.tangled = .ok (ofBody Sample.tangled) := by rfl
  obtain ⟨hentries, -, hnearest, -⟩ := immediatePostDominators_paths hbuild
  have hendless : entryOf (ofBody Sample.tangled).immediatePostDominators (.instr 5) = none := by decide
  refine ⟨hbuild, by decide, (hnearest (.instr 0) (.instr 2) (by decide) (by decide)).2.1, ?_, ?_⟩
  · exact ⟨_, .step (by decide : .instr 2 ∈ _) (.step (by decide : .instr 3 ∈ _) (.step (by decide : .exit ∈ _) .exit)),
      by decide⟩
  · rw [← hentries (.instr 5) (by decide), hendless]
    simp

end ForwardSlicing
