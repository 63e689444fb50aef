import Mathlib.Logic.Function.Basic

namespace EchidnaOS.Lib.Reference

variable {ν : Type*} {graph middle next : ν → Option (Option ν)} {node target : ν}

-- What each node refers to. It is `none` for a node that is not there, and `some none` for one
-- that refers to no other. No two nodes share what they refer to.
structure Exclusive (graph : ν → Option (Option ν)) : Prop where
  present : ∀ node target, graph node = some (some target) → graph target ≠ none
  unique : ∀ node other target, graph node = some (some target) →
    graph other = some (some target) → node = other

-- Nothing refers to a node that is not there.
theorem Exclusive.unreferred (hgraph : Exclusive graph) (habsent : graph target = none) (node : ν) :
    graph node ≠ some (some target) := by
  intro hrefers
  exact hgraph.present node target hrefers habsent

-- What is there stays, and only new nodes are referred to anew.
structure Extends (graph next : ν → Option (Option ν)) : Prop where
  kept : ∀ node, graph node ≠ none → next node = graph node
  fresh : ∀ source target, next source = some (some target) →
    graph source = some (some target) ∨ graph target = none

theorem Extends.refl (graph : ν → Option (Option ν)) : Extends graph graph :=
  ⟨fun _ _ => rfl, fun _ _ h => Or.inl h⟩

theorem Extends.present (hext : Extends graph next) (hnode : graph node ≠ none) : next node ≠ none := by
  rw [hext.kept node hnode]
  exact hnode

theorem Extends.trans (hfirst : Extends graph middle) (hsecond : Extends middle next) :
    Extends graph next := by
  constructor
  · intro node hnode
    rw [hsecond.kept node (hfirst.present hnode), hfirst.kept node hnode]
  · intro source target hsource
    rcases hsecond.fresh source target hsource with hmiddle | hnew
    · exact hfirst.fresh source target hmiddle
    · right
      by_contra hthere
      exact hfirst.present hthere hnew

-- A node that nothing refers to is still such a node.
theorem Extends.unreferred (hext : Extends graph next) (hnode : graph node ≠ none)
    (hnone : ∀ source, graph source ≠ some (some node)) (source : ν) :
    next source ≠ some (some node) := by
  intro hsource
  rcases hext.fresh source node hsource with hrefers | habsent
  · exact hnone source hrefers
  · exact hnode habsent

-- Every node that counts is referred to, but for some.
def Referred (counts except : ν → Prop) (graph : ν → Option (Option ν)) : Prop :=
  ∀ node, counts node → graph node ≠ none → except node ∨ ∃ source, graph source = some (some node)

theorem Referred.mono {counts except other : ν → Prop} (hreferred : Referred counts except graph)
    (hmono : ∀ node, counts node → except node →
      other node ∨ ∃ source, graph source = some (some node)) : Referred counts other graph := by
  intro node hcounts hnode
  rcases hreferred node hcounts hnode with hexcept | hsource
  · exact hmono node hcounts hexcept
  · exact Or.inr hsource

-- Some nodes are gone.
def without (graph : ν → Option (Option ν)) (gone : ν → Prop) [DecidablePred gone] (node : ν) :
    Option (Option ν) :=
  if gone node then none else graph node

-- Nodes may go together with whatever refers to them.
theorem Exclusive.without (hgraph : Exclusive graph) (gone : ν → Prop) [DecidablePred gone]
    (hclosed : ∀ node target, graph node = some (some target) → gone target → gone node) :
    Exclusive (without graph gone) := by
  have hold : ∀ node target, Reference.without graph gone node = some (some target) →
      ¬gone node ∧ graph node = some (some target) := by
    intro node target hnode
    unfold Reference.without at hnode
    by_cases hgone : gone node
    · rw [if_pos hgone] at hnode
      cases hnode
    · rw [if_neg hgone] at hnode
      exact ⟨hgone, hnode⟩
  constructor
  · intro node target hnode
    obtain ⟨hkept, hrefers⟩ := hold node target hnode
    unfold Reference.without
    rw [if_neg fun hgone => hkept (hclosed node target hrefers hgone)]
    exact hgraph.present node target hrefers
  · intro node other target hnode hother
    exact hgraph.unique node other target (hold node target hnode).2 (hold other target hother).2

-- Nodes may go together with what they refer to.
theorem Referred.without {counts except : ν → Prop} (hreferred : Referred counts except graph)
    (gone : ν → Prop) [DecidablePred gone]
    (hclosed : ∀ node target, graph node = some (some target) → gone node → gone target) :
    Referred counts except (without graph gone) := by
  intro node hcounts hnode
  unfold Reference.without at hnode ⊢
  by_cases hgone : gone node
  · rw [if_pos hgone] at hnode
    exact absurd rfl hnode
  · rw [if_neg hgone] at hnode
    rcases hreferred node hcounts hnode with hexcept | ⟨source, hsource⟩
    · exact Or.inl hexcept
    · refine Or.inr ⟨source, ?_⟩
      rw [if_neg fun h => hgone (hclosed source node hsource h)]
      exact hsource

variable [DecidableEq ν]

-- A new node refers to nothing, or to what has been there or not.
theorem Extends.insert {value : Option ν} (hext : Extends graph middle) (hnode : middle node = none)
    (htarget : ∀ target, value = some target → graph target = none) :
    Extends graph (Function.update middle node (some value)) := by
  constructor
  · intro other hother
    have hne : other ≠ node := by
      intro heq
      exact hext.present hother (heq ▸ hnode)
    rw [Function.update_of_ne hne, hext.kept other hother]
  · intro source target hsource
    by_cases heq : source = node
    · rw [heq, Function.update_self] at hsource
      exact Or.inr (htarget target (Option.some.inj hsource))
    · rw [Function.update_of_ne heq] at hsource
      exact hext.fresh source target hsource

-- A new node is one more that may have to be excepted; what it refers to is none any more.
theorem Referred.insert {counts except other : ν → Prop} {value : Option ν}
    (hreferred : Referred counts except graph) (habsent : graph node = none)
    (hexcept : ∀ there, except there → other there ∨ value = some there)
    (hnode : counts node → other node) :
    Referred counts other (Function.update graph node (some value)) := by
  intro there hcounts hthere
  by_cases heq : there = node
  · exact Or.inl (heq ▸ hnode (heq ▸ hcounts))
  · rw [Function.update_of_ne heq] at hthere
    rcases hreferred there hcounts hthere with hexcepted | ⟨source, hsource⟩
    · rcases hexcept there hexcepted with hother | hvalue
      · exact Or.inl hother
      · refine Or.inr ⟨node, ?_⟩
        rw [Function.update_self, hvalue]
    · have hne : source ≠ node := by
        rintro rfl
        rw [habsent] at hsource
        cases hsource
      refine Or.inr ⟨source, ?_⟩
      rw [Function.update_of_ne hne]
      exact hsource

-- A node may come to refer to nothing.
theorem Exclusive.addLeaf (hgraph : Exclusive graph) :
    Exclusive (Function.update graph node (some none)) := by
  have hold : ∀ source target, Function.update graph node (some none) source = some (some target) →
      graph source = some (some target) := by
    intro source target hsource
    by_cases heq : source = node
    · rw [heq, Function.update_self] at hsource
      cases hsource
    · rwa [Function.update_of_ne heq] at hsource
  constructor
  · intro source target hsource
    by_cases heq : target = node
    · rw [heq, Function.update_self]
      simp
    · rw [Function.update_of_ne heq]
      exact hgraph.present source target (hold source target hsource)
  · intro source other target hsource hother
    exact hgraph.unique source other target (hold source target hsource) (hold other target hother)

-- A node may refer to one that is there and that nothing refers to yet.
theorem Exclusive.add (hgraph : Exclusive graph) (htarget : graph target ≠ none)
    (hfree : ∀ source, graph source ≠ some (some target)) :
    Exclusive (Function.update graph node (some (some target))) := by
  have hnew : ∀ there, Function.update graph node (some (some target)) node = some (some there) →
      there = target := by
    intro there hthere
    rw [Function.update_self] at hthere
    exact (Option.some.inj (Option.some.inj hthere)).symm
  have hold : ∀ source there, source ≠ node →
      Function.update graph node (some (some target)) source = some (some there) →
      graph source = some (some there) ∧ there ≠ target := by
    intro source there hne hsource
    rw [Function.update_of_ne hne] at hsource
    refine ⟨hsource, ?_⟩
    intro heq
    exact hfree source (heq ▸ hsource)
  constructor
  · intro source there hsource
    by_cases hthere : there = node
    · rw [hthere, Function.update_self]
      simp
    · rw [Function.update_of_ne hthere]
      by_cases heq : source = node
      · rw [hnew there (heq ▸ hsource)]
        exact htarget
      · exact hgraph.present source there (hold source there heq hsource).1
  · intro source other there hsource hother
    by_cases heq : source = node
    · by_cases hself : other = node
      · rw [heq, hself]
      · exact absurd (hnew there (heq ▸ hsource)) (hold other there hself hother).2
    · obtain ⟨hrefers, hne⟩ := hold source there heq hsource
      by_cases hself : other = node
      · exact absurd (hnew there (hself ▸ hother)) hne
      · exact hgraph.unique source other there hrefers (hold other there hself hother).1

end EchidnaOS.Lib.Reference
