import Mathlib.Data.List.Nodup
import Mathlib.Logic.Function.Basic

/-!
# Intrusive rings

Circular doubly linked lists whose links are embedded in the objects they
connect. `IsRing links head members` says that following `next` from the head
visits the members in order and returns to the head, and that `prev` goes the
other way round. The two edits of such a list, linking a node in before the head
and taking one out, keep every ring that does not contain the node.
-/

namespace Intrusive

/-- The links of all nodes. -/
@[ext] structure Links (ν : Type) where
  /-- The successor of a node. -/
  next : ν → ν
  /-- The predecessor of a node. -/
  prev : ν → ν

namespace Links

variable {ν : Type} [DecidableEq ν]

/-- Writing the successor of a node. -/
def setNext (l : Links ν) (n succ : ν) : Links ν :=
  { l with next := Function.update l.next n succ }

/-- Writing the predecessor of a node. -/
def setPrev (l : Links ν) (n pred : ν) : Links ν :=
  { l with prev := Function.update l.prev n pred }

/-- A node that is linked to itself only. -/
def isolate (l : Links ν) (n : ν) : Links ν := (l.setNext n n).setPrev n n

/-- A new node between two others. -/
def insertBetween (l : Links ν) (new pred succ : ν) : Links ν :=
  (((l.setPrev succ new).setNext new succ).setPrev new pred).setNext pred new

/-- Two nodes made each other's neighbours. -/
def join (l : Links ν) (pred succ : ν) : Links ν := (l.setPrev succ pred).setNext pred succ

/-- A node taken out of its ring and linked to itself. -/
def unlink (l : Links ν) (n : ν) : Links ν := (l.join (l.prev n) (l.next n)).isolate n

end Links

/-- A node that is linked to itself only. -/
def Isolated {ν : Type} (l : Links ν) (n : ν) : Prop := l.next n = n ∧ l.prev n = n

/-- The ring of a head and its members. -/
structure IsRing {ν : Type} (l : Links ν) (head : ν) (members : List ν) : Prop where
  /-- No node occurs twice. -/
  nodup : (head :: members).Nodup
  /-- The successors, in order. -/
  next_eq : (head :: members).map l.next = members ++ [head]
  /-- The predecessors, in order. -/
  prev_eq : (members ++ [head]).map l.prev = head :: members

section

variable {ν : Type} {l l' : Links ν} {head new n : ν} {members front back : List ν}

/-- Whether a ring exists depends on the links of its nodes only. -/
theorem IsRing.congr (h : IsRing l head members)
    (hnext : ∀ x ∈ head :: members, l'.next x = l.next x)
    (hprev : ∀ x ∈ head :: members, l'.prev x = l.prev x) : IsRing l' head members := by
  refine ⟨h.nodup, ?_, ?_⟩
  · rw [← h.next_eq]
    exact List.map_congr_left hnext
  · rw [← h.prev_eq]
    apply List.map_congr_left
    intro x hx
    apply hprev
    simpa [or_comm] using hx

/-- A head without members is isolated. -/
theorem isRing_nil_iff : IsRing l head [] ↔ Isolated l head := by
  constructor
  · intro h
    exact ⟨by simpa using h.next_eq, by simpa using h.prev_eq⟩
  · rintro ⟨hnext, hprev⟩
    exact ⟨by simp, by simpa using hnext, by simpa using hprev⟩

/-- The head of a ring is none of its members. -/
theorem IsRing.ne_head (h : IsRing l head members) (hn : n ∈ members) : n ≠ head :=
  fun heq => (List.nodup_cons.mp h.nodup).1 (heq ▸ hn)

/-- The head of a ring leads to its first member, or to itself. -/
theorem IsRing.next_head (h : IsRing l head members) : l.next head = members.headD head := by
  have hnext := h.next_eq
  cases members with
  | nil => simpa using hnext
  | cons n members =>
    simp only [List.map_cons, List.cons_append, List.cons.injEq] at hnext
    exact hnext.1

/-- The first member of a ring leads to the second one, or to the head. -/
theorem IsRing.next_first (h : IsRing l head (n :: members)) : l.next n = members.headD head := by
  have hnext := h.next_eq
  simp only [List.map_cons, List.cons_append, List.cons.injEq] at hnext
  cases members with
  | nil => simpa using hnext.2
  | cons n' members =>
    simp only [List.map_cons, List.cons_append, List.cons.injEq] at hnext
    exact hnext.2.1

/-- What follows the first node of a ring, which is the head when there is no member. -/
theorem IsRing.next_headD (h : IsRing l head members) :
    l.next (members.headD head) = members.tail.headD head := by
  cases members with
  | nil => exact h.next_head
  | cons n members => exact h.next_first

/-- Links lead from a node to the head along one path at most. -/
theorem path_unique {x : ν} {xs ys : List ν} (hxs : (x :: xs).map l.next = xs ++ [head])
    (hys : (x :: ys).map l.next = ys ++ [head]) (hx : head ∉ xs) (hy : head ∉ ys) : xs = ys := by
  induction xs generalizing x ys with
  | nil =>
    cases ys with
    | nil => rfl
    | cons b ys =>
      simp only [List.map_cons, List.map_nil, List.nil_append, List.cons.injEq, and_true,
        List.cons_append] at hxs hys
      exact absurd (List.mem_cons.mpr (.inl (hxs.symm.trans hys.1))) hy
  | cons a xs ih =>
    cases ys with
    | nil =>
      simp only [List.map_cons, List.map_nil, List.nil_append, List.cons.injEq, and_true,
        List.cons_append] at hxs hys
      exact absurd (List.mem_cons.mpr (.inl (hys.symm.trans hxs.1))) hx
    | cons b ys =>
      rw [List.map_cons, List.cons_append, List.cons.injEq] at hxs hys
      obtain rfl : a = b := hxs.1.symm.trans hys.1
      rw [ih hxs.2 hys.2 (fun hmem => hx (List.mem_cons_of_mem _ hmem))
        (fun hmem => hy (List.mem_cons_of_mem _ hmem))]

/-- A head has one ring at most. -/
theorem IsRing.unique {others : List ν} (h : IsRing l head members) (ho : IsRing l head others) :
    members = others :=
  path_unique h.next_eq ho.next_eq (List.nodup_cons.mp h.nodup).1 (List.nodup_cons.mp ho.nodup).1

/-- Every node of a ring is followed by a node of the ring. -/
theorem IsRing.next_mem (h : IsRing l head members) (hn : n ∈ head :: members) :
    l.next n ∈ head :: members := by
  have hmem : l.next n ∈ (head :: members).map l.next := List.mem_map_of_mem hn
  rw [h.next_eq] at hmem
  simpa [or_comm] using hmem

/-- Every node of a ring is preceded by a node of the ring. -/
theorem IsRing.prev_mem (h : IsRing l head members) (hn : n ∈ head :: members) :
    l.prev n ∈ head :: members := by
  rw [← h.prev_eq]
  apply List.mem_map_of_mem
  simpa [or_comm] using hn

/-- The neighbours of a member, with the parts of the ring in front of and behind them. -/
theorem IsRing.neighbours (h : IsRing l head (front ++ n :: back)) :
    ∃ init tail, head :: front = init ++ [l.prev n] ∧ back ++ [head] = l.next n :: tail ∧
      init.map l.next = front ∧ l.next (l.prev n) = n ∧ back.map l.next = tail ∧
      front.map l.prev = init ∧ l.prev (l.next n) = n ∧ tail.map l.prev = back := by
  obtain ⟨init, pred, hinit⟩ : ∃ init pred, head :: front = init ++ [pred] :=
    ⟨_, _, (List.dropLast_append_getLast (List.cons_ne_nil head front)).symm⟩
  obtain ⟨succ, tail, htail⟩ : ∃ succ tail, back ++ [head] = succ :: tail :=
    List.exists_cons_of_ne_nil (by simp)
  have hfront : init.length = front.length := by
    have := congrArg List.length hinit
    simp only [List.length_cons, List.length_append, List.length_nil] at this
    omega
  have hback : back.length = tail.length := by
    have := congrArg List.length htail
    simp only [List.length_cons, List.length_append, List.length_nil] at this
    omega
  have hnext := h.next_eq
  rw [← List.cons_append, hinit, List.append_assoc front, List.cons_append, htail] at hnext
  simp only [List.map_append, List.map_cons, List.append_assoc, List.singleton_append] at hnext
  obtain ⟨hinitnext, hrest⟩ := List.append_inj hnext (by simpa using hfront)
  simp only [List.cons.injEq] at hrest
  have hprev := h.prev_eq
  rw [List.append_assoc, List.cons_append, htail, ← List.cons_append, hinit] at hprev
  simp only [List.map_append, List.map_cons, List.append_assoc,
    List.singleton_append] at hprev
  obtain ⟨hinitprev, hrest'⟩ := List.append_inj hprev (by simpa using hfront.symm)
  simp only [List.cons.injEq] at hrest'
  obtain ⟨hpred, hsucc, hback'⟩ := hrest'
  obtain ⟨hn, hsucc', htail'⟩ := hrest
  subst hpred hsucc'
  exact ⟨init, tail, hinit, htail, hinitnext, hn, htail', hinitprev, hsucc, hback'⟩

/-- A member of a ring is not isolated. -/
theorem IsRing.not_isolated (h : IsRing l head members) (hn : n ∈ members) : ¬ Isolated l n := by
  rintro ⟨hnext, -⟩
  obtain ⟨front, back, rfl⟩ := List.append_of_mem hn
  obtain ⟨-, tail, -, htail, -⟩ := h.neighbours
  have hmem : n ∈ back ++ [head] := by
    rw [htail, hnext]
    exact List.mem_cons_self
  have hnodup := h.nodup
  simp only [List.nodup_cons, List.nodup_append, List.mem_append, List.mem_cons, not_or] at hnodup
  simp only [List.mem_append, List.mem_singleton] at hmem
  obtain hmem | hmem := hmem
  · exact hnodup.2.2.1.1 hmem
  · exact hnodup.1.2.1 hmem.symm

/-- The last node of a ring, with the rest of it. -/
theorem IsRing.last (h : IsRing l head members) :
    ∃ init, head :: members = init ++ [l.prev head] ∧ init.map l.next = members ∧
      l.next (l.prev head) = head ∧ members.map l.prev = init := by
  obtain ⟨init, pred, hinit⟩ : ∃ init pred, head :: members = init ++ [pred] :=
    ⟨_, _, (List.dropLast_append_getLast (List.cons_ne_nil head members)).symm⟩
  have hlength : init.length = members.length := by
    have := congrArg List.length hinit
    simp only [List.length_cons, List.length_append, List.length_nil] at this
    omega
  have hprev := h.prev_eq
  have hnext := h.next_eq
  rw [hinit, List.map_append] at hprev hnext
  obtain ⟨hmembers, hpred⟩ := List.append_inj hprev (by simpa using hlength.symm)
  obtain ⟨hinitnext, hhead⟩ := List.append_inj hnext (by simpa using hlength)
  simp only [List.map_cons, List.map_nil, List.cons.injEq, and_true] at hpred hhead
  subst hpred
  exact ⟨init, hinit, hinitnext, hhead, hmembers⟩

variable [DecidableEq ν]

/-- The successors after a node is linked in. -/
theorem next_insertBetween (l : Links ν) (new pred succ x : ν) :
    (l.insertBetween new pred succ).next x =
      if x = pred then new else if x = new then succ else l.next x := by
  simp [Links.insertBetween, Links.setNext, Links.setPrev, Function.update_apply]

/-- The predecessors after a node is linked in. -/
theorem prev_insertBetween (l : Links ν) (new pred succ x : ν) :
    (l.insertBetween new pred succ).prev x =
      if x = new then pred else if x = succ then new else l.prev x := by
  simp [Links.insertBetween, Links.setNext, Links.setPrev, Function.update_apply]

/-- The successors after a node is taken out. -/
theorem next_unlink (l : Links ν) (n x : ν) :
    (l.unlink n).next x =
      if x = n then n else if x = l.prev n then l.next n else l.next x := by
  simp [Links.unlink, Links.join, Links.isolate, Links.setNext, Links.setPrev,
    Function.update_apply]

/-- The predecessors after a node is taken out. -/
theorem prev_unlink (l : Links ν) (n x : ν) :
    (l.unlink n).prev x =
      if x = n then n else if x = l.next n then l.prev n else l.prev x := by
  simp [Links.unlink, Links.join, Links.isolate, Links.setNext, Links.setPrev,
    Function.update_apply]

/-- Linking a node in before the head appends it to the members. -/
theorem IsRing.insertBetween (h : IsRing l head members) (hnew : new ∉ head :: members) :
    IsRing (l.insertBetween new (l.prev head) head) head (members ++ [new]) := by
  obtain ⟨init, hinit, hinitnext, hlast, hmembers⟩ := h.last
  have hnodup : (init ++ [l.prev head]).Nodup := hinit ▸ h.nodup
  have hpred : l.prev head ∉ init := by
    intro hmem
    exact (List.nodup_append.mp hnodup).2.2 _ hmem _ (List.mem_singleton.mpr rfl) rfl
  have hnewinit : new ∉ init ++ [l.prev head] := hinit ▸ hnew
  have hnewpred : new ≠ l.prev head := by
    intro heq
    exact hnewinit (by simp [heq])
  have hnewhead : new ≠ head := by
    intro heq
    exact hnew (by simp [heq])
  refine ⟨?_, ?_, ?_⟩
  · rw [← List.cons_append, List.nodup_append]
    refine ⟨h.nodup, List.nodup_singleton new, ?_⟩
    intro a ha b hb
    rw [List.mem_singleton] at hb
    subst hb
    intro heq
    exact hnew (heq ▸ ha)
  · have hkeep : init.map (l.insertBetween new (l.prev head) head).next = members := by
      rw [← hinitnext]
      apply List.map_congr_left
      intro x hx
      have hxp : x ≠ l.prev head := fun heq => hpred (heq ▸ hx)
      have hxn : x ≠ new := fun heq => hnewinit (heq ▸ List.mem_append_left _ hx)
      simp [next_insertBetween, hxp, hxn]
    rw [← List.cons_append, hinit]
    simp [hkeep, next_insertBetween, hnewpred]
  · have hkeep : members.map (l.insertBetween new (l.prev head) head).prev = init := by
      rw [← hmembers]
      apply List.map_congr_left
      intro x hx
      have hxh : x ≠ head := fun heq => (List.nodup_cons.mp h.nodup).1 (heq ▸ hx)
      have hxn : x ≠ new := fun heq => hnew (heq ▸ List.mem_cons_of_mem _ hx)
      simp [prev_insertBetween, hxh, hxn]
    rw [← List.cons_append, hinit]
    simp [hkeep, prev_insertBetween, hnewhead.symm]

/-- Linking a node in before the head of one ring leaves a disjoint ring alone. -/
theorem IsRing.insertBetween_frame {other : ν} {others : List ν} (h : IsRing l head members)
    (ho : IsRing l other others) (hdisjoint : List.Disjoint (head :: members) (other :: others))
    (hnew : new ∉ head :: members) :
    IsRing (l.insertBetween new (l.prev other) other) head members := by
  have hpred : l.prev other ∈ other :: others := ho.prev_mem (by simp)
  apply h.congr
  · intro x hx
    have hxp : x ≠ l.prev other := fun heq => hdisjoint hx (heq ▸ hpred)
    have hxn : x ≠ new := fun heq => hnew (heq ▸ hx)
    simp [next_insertBetween, hxp, hxn]
  · intro x hx
    have hxo : x ≠ other := fun heq => hdisjoint hx (heq ▸ List.mem_cons_self)
    have hxn : x ≠ new := fun heq => hnew (heq ▸ hx)
    simp [prev_insertBetween, hxo, hxn]

/-- Taking a member out leaves the ring of the others. -/
theorem IsRing.unlink (h : IsRing l head (front ++ n :: back)) :
    IsRing (l.unlink n) head (front ++ back) := by
  obtain ⟨init, tail, hinit, htail, hinitnext, hpred, htailnext, hinitprev, hsucc, htailprev⟩ :=
    h.neighbours
  have hnodup : (init ++ l.prev n :: n :: back).Nodup := by
    have := h.nodup
    rwa [← List.cons_append, hinit, List.append_assoc, List.singleton_append] at this
  have hnodup' : (front ++ n :: l.next n :: tail).Nodup := by
    rw [← htail, ← List.cons_append, ← List.append_assoc]
    exact (List.perm_append_comm.nodup_iff).mp h.nodup
  obtain ⟨-, hnd, hinitdisj⟩ := List.nodup_append.mp hnodup
  obtain ⟨-, hnd', hfrontdisj⟩ := List.nodup_append.mp hnodup'
  simp only [List.nodup_cons, List.mem_cons, not_or] at hnd hnd'
  refine ⟨?_, ?_, ?_⟩
  · have := h.nodup
    rw [← List.cons_append] at this ⊢
    exact this.sublist (List.Sublist.append_left (List.sublist_cons_self n back) _)
  · have hkeep : init.map (l.unlink n).next = front := by
      rw [← hinitnext]
      apply List.map_congr_left
      intro x hx
      have hxp : x ≠ l.prev n := hinitdisj x hx _ (by simp)
      have hxn : x ≠ n := hinitdisj x hx _ (by simp)
      simp [next_unlink, hxp, hxn]
    have hkeep' : back.map (l.unlink n).next = tail := by
      rw [← htailnext]
      apply List.map_congr_left
      intro x hx
      have hxp : x ≠ l.prev n := fun heq => hnd.1.2 (heq ▸ hx)
      have hxn : x ≠ n := fun heq => hnd.2.1 (heq ▸ hx)
      simp [next_unlink, hxp, hxn]
    have hp : (l.unlink n).next (l.prev n) = l.next n := by
      simp [next_unlink, hnd.1.1]
    rw [← List.cons_append, hinit, List.append_assoc front, htail]
    simp [hkeep, hkeep', hp]
  · have hkeep : front.map (l.unlink n).prev = init := by
      rw [← hinitprev]
      apply List.map_congr_left
      intro x hx
      have hxs : x ≠ l.next n := hfrontdisj x hx _ (by simp)
      have hxn : x ≠ n := hfrontdisj x hx _ (by simp)
      simp [prev_unlink, hxs, hxn]
    have hkeep' : tail.map (l.unlink n).prev = back := by
      rw [← htailprev]
      apply List.map_congr_left
      intro x hx
      have hxs : x ≠ l.next n := fun heq => hnd'.2.1 (heq ▸ hx)
      have hxn : x ≠ n := fun heq => hnd'.1.2 (heq ▸ hx)
      simp [prev_unlink, hxs, hxn]
    have hs : (l.unlink n).prev (l.next n) = l.prev n := by
      simp [prev_unlink, Ne.symm hnd'.1.1]
    rw [← List.cons_append, hinit, List.append_assoc front, htail]
    simp [hkeep, hkeep', hs]

/-- A node taken out is isolated. -/
theorem isolated_unlink (l : Links ν) (n : ν) : Isolated (l.unlink n) n := by
  simp [Isolated, next_unlink, prev_unlink]

/-- Taking a node out of one ring leaves a disjoint ring alone. -/
theorem IsRing.unlink_frame {other : ν} {others : List ν} (h : IsRing l head members)
    (ho : IsRing l other others) (hdisjoint : List.Disjoint (head :: members) (other :: others))
    (hn : n ∈ others) : IsRing (l.unlink n) head members := by
  have hmem : n ∈ other :: others := List.mem_cons_of_mem _ hn
  have hpred := ho.prev_mem hmem
  have hsucc := ho.next_mem hmem
  apply h.congr
  · intro x hx
    have hxp : x ≠ l.prev n := fun heq => hdisjoint hx (heq ▸ hpred)
    have hxn : x ≠ n := fun heq => hdisjoint hx (heq ▸ hmem)
    simp [next_unlink, hxp, hxn]
  · intro x hx
    have hxs : x ≠ l.next n := fun heq => hdisjoint hx (heq ▸ hsucc)
    have hxn : x ≠ n := fun heq => hdisjoint hx (heq ▸ hmem)
    simp [prev_unlink, hxs, hxn]

/-- Taking an isolated node out changes no link. -/
theorem unlink_of_isolated (h : Isolated l n) : l.unlink n = l := by
  obtain ⟨hnext, hprev⟩ := h
  have hnexts : (l.unlink n).next = l.next := by
    funext x
    rw [next_unlink, hprev]
    split
    · subst x
      exact hnext.symm
    · rfl
  have hprevs : (l.unlink n).prev = l.prev := by
    funext x
    rw [prev_unlink, hnext]
    split
    · subst x
      exact hprev.symm
    · rfl
  exact Links.ext hnexts hprevs

/-- Taking a member out leaves the ring of the members that differ from it. -/
theorem IsRing.unlink_filter (h : IsRing l head members) (hn : n ∈ members) :
    IsRing (l.unlink n) head (members.filter (· ≠ n)) := by
  obtain ⟨front, back, rfl⟩ := List.append_of_mem hn
  have hnodup := (List.nodup_cons.mp h.nodup).2
  obtain ⟨hfront, hback, hdisjoint⟩ := List.nodup_append.mp hnodup
  have hfilter : (front ++ n :: back).filter (· ≠ n) = front ++ back := by
    rw [List.filter_append, List.filter_cons_of_neg (by simp), List.filter_eq_self.mpr,
      List.filter_eq_self.mpr]
    · intro x hx
      have hne : x ≠ n := fun heq => (List.nodup_cons.mp hback).1 (heq ▸ hx)
      simpa using hne
    · intro x hx
      simpa using hdisjoint x hx n (by simp)
  rw [hfilter]
  exact h.unlink

/-- Taking a node out of a ring leaves an isolated node outside the ring alone. -/
theorem Isolated.unlink {x : ν} (hx : Isolated l x) (h : IsRing l head members)
    (hn : n ∈ members) (hout : x ∉ head :: members) : Isolated (l.unlink n) x := by
  have hmem : n ∈ head :: members := List.mem_cons_of_mem _ hn
  have hxn : x ≠ n := fun heq => hout (heq ▸ hmem)
  have hxp : x ≠ l.prev n := fun heq => hout (heq ▸ h.prev_mem hmem)
  have hxs : x ≠ l.next n := fun heq => hout (heq ▸ h.next_mem hmem)
  refine ⟨?_, ?_⟩
  · rw [next_unlink, if_neg hxn, if_neg hxp]
    exact hx.1
  · rw [prev_unlink, if_neg hxn, if_neg hxs]
    exact hx.2

/-- Taking out a node that is a member or isolated leaves the ring of the other members,
and every such node stays a member or becomes isolated. -/
theorem IsRing.unlink_known (h : IsRing l head members) (hn : n ∈ members ∨ Isolated l n) :
    IsRing (l.unlink n) head (members.filter (· ≠ n)) ∧
      ∀ x, x ∈ members ∨ Isolated l x →
        x ∈ members.filter (· ≠ n) ∨ Isolated (l.unlink n) x := by
  rcases hn with hmem | hiso
  · refine ⟨h.unlink_filter hmem, ?_⟩
    rintro x (hx | hx)
    · by_cases hxn : x = n
      · subst hxn
        exact .inr (isolated_unlink l x)
      · exact .inl (List.mem_filter.mpr ⟨hx, by simpa using hxn⟩)
    · refine .inr (hx.unlink h hmem ?_)
      rintro hout
      rcases List.mem_cons.mp hout with rfl | hout
      · rw [h.unique (isRing_nil_iff.mpr hx)] at hmem
        simp at hmem
      · exact h.not_isolated hout hx
  · have hfilter : members.filter (· ≠ n) = members := by
      apply List.filter_eq_self.mpr
      intro x hx
      have hne : x ≠ n := fun heq => h.not_isolated hx (heq ▸ hiso)
      simpa using hne
    rw [unlink_of_isolated hiso, hfilter]
    exact ⟨h, fun _ hx => hx⟩

/-- Taking out several nodes, one after the other. -/
theorem IsRing.foldl_unlink {ns : List ν} (h : IsRing l head members)
    (hns : ∀ n ∈ ns, n ∈ members ∨ Isolated l n) :
    IsRing (ns.foldl Links.unlink l) head (members.filter (· ∉ ns)) ∧
      ∀ x, x ∈ members ∨ Isolated l x →
        x ∈ members.filter (· ∉ ns) ∨ Isolated (ns.foldl Links.unlink l) x := by
  induction ns generalizing l members with
  | nil => simpa using h
  | cons n ns ih =>
    obtain ⟨hring, hknown⟩ := h.unlink_known (hns n List.mem_cons_self)
    have hfilter : members.filter (· ∉ n :: ns) = (members.filter (· ≠ n)).filter (· ∉ ns) := by
      simp [List.filter_filter, not_or, Bool.and_comm]
    obtain ⟨hrest, hknown'⟩ :=
      ih hring fun m hm => hknown m (hns m (List.mem_cons_of_mem _ hm))
    rw [List.foldl_cons, hfilter]
    exact ⟨hrest, fun x hx => hknown' x (hknown x hx)⟩

/-- Linking a node into a ring leaves an isolated node outside the ring alone. -/
theorem Isolated.insertBetween {x : ν} (hx : Isolated l x) (h : IsRing l head members)
    (hout : x ∉ head :: members) (hnew : x ≠ new) :
    Isolated (l.insertBetween new (l.prev head) head) x := by
  have hmem : head ∈ head :: members := List.mem_cons_self
  have hxh : x ≠ head := fun heq => hout (heq ▸ hmem)
  have hxp : x ≠ l.prev head := fun heq => hout (heq ▸ h.prev_mem hmem)
  refine ⟨?_, ?_⟩
  · rw [next_insertBetween, if_neg hxp, if_neg hnew]
    exact hx.1
  · rw [prev_insertBetween, if_neg hnew, if_neg hxh]
    exact hx.2

/-- Isolating a node outside a ring leaves the ring alone. -/
theorem IsRing.isolate (h : IsRing l head members) (hn : n ∉ head :: members) :
    IsRing (l.isolate n) head members := by
  apply h.congr
  · intro x hx
    have hxn : x ≠ n := fun heq => hn (heq ▸ hx)
    simp [Links.isolate, Links.setNext, Links.setPrev, hxn]
  · intro x hx
    have hxn : x ≠ n := fun heq => hn (heq ▸ hx)
    simp [Links.isolate, Links.setNext, Links.setPrev, hxn]

/-- A node that is made a head is a ring without members. -/
theorem isRing_isolate (l : Links ν) (n : ν) : IsRing (l.isolate n) n [] :=
  isRing_nil_iff.mpr ⟨by simp [Links.isolate, Links.setNext, Links.setPrev],
    by simp [Links.isolate, Links.setNext, Links.setPrev]⟩

end

end Intrusive
