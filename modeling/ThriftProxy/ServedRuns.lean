import ThriftProxy.Served

/-!
# Every accepted request is served

The event loop, the queue and the workers together. In every interleaving each request
that has been accepted waits in its order, is with one worker, or has been answered
with one reply. None is lost, none is handled twice and none is left out.
-/

namespace ThriftProxy

open Effect Program Transition

/-- The request that an entry accepts. -/
def Entry.acceptedRequest : Entry → Option Request
  | accepted r _ _ => some r
  | _ => none

/-- The requests that have been accepted, in their order. -/
def acceptedOf (log : List Entry) : List Request := log.filterMap Entry.acceptedRequest

/-- The requests in the history are those of accepted packages. -/
theorem mem_acceptedOf {log : List Entry} {r : Request} :
    r ∈ acceptedOf log ↔ ∃ fd pkg, Entry.accepted r fd pkg ∈ log := by
  constructor
  · intro h
    obtain ⟨entry, hentry, hr⟩ := List.mem_filterMap.mp h
    cases entry with
    | accepted r' fd pkg =>
      obtain rfl := Option.some.inj hr
      exact ⟨fd, pkg, hentry⟩
    | linkDown fd => cases hr
    | performed r' owner e => cases hr
  · rintro ⟨fd, pkg, h⟩
    exact List.mem_filterMap.mpr ⟨_, h, rfl⟩

/-- The requests of a longer history. -/
theorem acceptedOf_append (log log' : List Entry) :
    acceptedOf (log ++ log') = acceptedOf log ++ acceptedOf log' := List.filterMap_append ..

namespace System

variable {s s' : System}

/-- A worker runs the handler of a request. -/
def Working (s : System) (r : Request) : Prop := ∃ w j, s.workers w = some j ∧ j.request = r

/-- The handler of a request has run to its end. -/
def Finished (s : System) (r : Request) : Prop :=
  Exec runClientInfo (eventsOf r.id s.log) (ret ())

/-- Each accepted request is somewhere, and those that wait are in their order. -/
structure Placed (s : System) : Prop where
  coherent : s.Coherent
  in_order : ∃ taken, acceptedOf s.log = taken ++ s.waiting
  somewhere : ∀ r ∈ acceptedOf s.log, r ∈ s.waiting ∨ s.Working r ∨ s.Finished r

/-- In the beginning nothing has been accepted. -/
theorem placed_start (st : Store) : (System.start st).Placed where
  coherent := coherent_start st
  in_order := ⟨[], rfl⟩
  somewhere _ hr := nomatch hr

namespace Placed

/-- A worker that goes on with the same request. -/
theorem working_update {w : ℕ} {j : Job} {r : Request} (hold : ∀ j', s.workers w = some j' →
      j'.request = j.request) (hr : s.Working r) :
    ∃ w' j', Function.update s.workers w (some j) w' = some j' ∧ j'.request = r := by
  obtain ⟨w', j', hw', rfl⟩ := hr
  by_cases heq : w' = w
  · subst heq
    exact ⟨w', j, Function.update_self .., (hold j' hw').symm⟩
  · exact ⟨w', j', by rwa [Function.update_of_ne heq], rfl⟩

/-- A step of the event loop loses no request. -/
theorem loop (h : s.Placed) (hidle : s.pending = none) {op : StoreOp} {st' : Store}
    (hcoherent : (s.afterLoop st' op).Coherent) : (s.afterLoop st' op).Placed := by
  obtain ⟨-, ⟨taken, htaken⟩, hsomewhere⟩ := h
  rcases s.afterLoop_cases st' op with heq | ⟨fd, -, heq⟩ |
    ⟨fd, pkg, malloc, procTime, now, item, -, -, heq⟩
  · rw [heq] at hcoherent ⊢
    exact ⟨hcoherent, ⟨taken, htaken⟩, hsomewhere⟩
  · rw [heq] at hcoherent ⊢
    have haccepted : acceptedOf (s.log ++ [.linkDown fd]) = acceptedOf s.log := by
      rw [acceptedOf_append]
      exact List.append_nil _
    refine ⟨hcoherent, ⟨taken, haccepted.trans htaken⟩, fun r hr => ?_⟩
    rw [haccepted] at hr
    rcases hsomewhere r hr with hr | hr | hr
    · exact .inl hr
    · exact .inr (.inl hr)
    · exact .inr (.inr (by rwa [Finished, eventsOf_append_linkDown]))
  · rw [heq] at hcoherent ⊢
    have hwaiting : s.waiting = s.queue := by simp [waiting, hidle]
    rw [hwaiting] at htaken hsomewhere
    refine ⟨hcoherent, ⟨taken, ?_⟩, fun r hr => ?_⟩
    · rw [acceptedOf_append, htaken, List.append_assoc]
      rfl
    · rw [acceptedOf_append, List.mem_append] at hr
      rcases hr with hr | hr
      · rcases hsomewhere r hr with hr | hr | hr
        · exact .inl (List.mem_append_left _ hr)
        · exact .inr (.inl hr)
        · exact .inr (.inr (by rwa [Finished, eventsOf_append_accepted]))
      · exact .inl (List.mem_append_right _ hr)

/-- `take` gives the request that has waited longest to a worker. -/
theorem take (h : s.Placed) {w : ℕ} {r : Request} {queue : List Request}
    (hidle : s.workers w = none) (hfront : s.queue = r :: queue) :
    Placed { s with
      queue := queue
      workers := Function.update s.workers w (some ⟨r, runClientInfo⟩) } := by
  have hcoherent := h.coherent.take w hfront
  obtain ⟨-, ⟨taken, htaken⟩, hsomewhere⟩ := h
  have hwaiting : s.waiting = r :: (queue ++ s.pending.toList) := by simp [waiting, hfront]
  rw [hwaiting] at htaken hsomewhere
  refine ⟨hcoherent, ⟨taken ++ [r], by rw [htaken]; simp [waiting]⟩, fun r' hr' => ?_⟩
  rcases hsomewhere r' hr' with hr | hr | hr
  · rcases List.mem_cons.mp hr with rfl | hr
    · exact .inr (.inl ⟨w, _, Function.update_self .., rfl⟩)
    · exact .inl hr
  · exact .inr (.inl (working_update (fun j' hj' => by simp [hidle] at hj') hr))
  · exact .inr (.inr hr)

/-- A worker that goes on concerns its own request only. -/
theorem work (h : s.Placed) {w : ℕ} {r : Request} {op : HandlerOp}
    {next : op.Answer → Program HandlerSig Unit} {answer : op.Answer} {owner : Option ℕ}
    (hbusy : s.workers w = some ⟨r, perform (S := HandlerSig) op next⟩) :
    Placed { s with
      workers := Function.update s.workers w (some ⟨r, next answer⟩)
      log := s.log ++ [.performed r owner ⟨op, answer⟩] } := by
  obtain ⟨hold, ⟨taken, htaken⟩, hsomewhere⟩ := h
  have haccepted : acceptedOf (s.log ++ [.performed r owner ⟨op, answer⟩]) = acceptedOf s.log := by
    rw [acceptedOf_append]
    exact List.append_nil _
  refine ⟨hold.work hbusy, ⟨taken, haccepted.trans htaken⟩, fun r' hr' => ?_⟩
  rw [haccepted] at hr'
  have hrequest : ∀ j', s.workers w = some j' → j'.request = r := by
    intro j' hj'
    obtain rfl := Option.some.inj (hbusy.symm.trans hj')
    rfl
  rcases hsomewhere r' hr' with hr | hr | hr
  · exact .inl hr
  · exact .inr (.inl (working_update hrequest hr))
  · by_cases hid : r.id = r'.id
    · -- the request is with this worker
      obtain ⟨fd, pkg, hr₁⟩ := hold.working_accepted w _ hbusy
      obtain ⟨fd', pkg', hr₂⟩ := mem_acceptedOf.mp hr'
      obtain ⟨rfl, -, -⟩ := hold.accepted_unique _ _ _ _ _ _ hr₁ hr₂ hid
      exact .inr (.inl ⟨w, _, Function.update_self .., rfl⟩)
    · exact .inr (.inr (by rwa [Finished, eventsOf_append_performed, if_neg hid]))

/-- A worker that returns has finished its request. -/
theorem finish (h : s.Placed) {w : ℕ} {r : Request} (hdone : s.workers w = some ⟨r, ret ()⟩) :
    Placed { s with workers := Function.update s.workers w none } := by
  have hcoherent := h.coherent.finish w
  obtain ⟨hold, htaken, hsomewhere⟩ := h
  refine ⟨hcoherent, htaken, fun r' hr' => ?_⟩
  rcases hsomewhere r' hr' with hr | ⟨w', j', hw', rfl⟩ | hr
  · exact .inl hr
  · by_cases heq : w' = w
    · subst heq
      obtain rfl := Option.some.inj (hdone.symm.trans hw')
      exact .inr (.inr (hold.working_history _ _ hdone))
    · exact .inr (.inl ⟨w', j', (Function.update_of_ne heq _ _).trans hw', rfl⟩)
  · exact .inr (.inr hr)

/-- `put` leaves the order as it is. -/
theorem put (h : s.Placed) {r : Request} (hpending : s.pending = some r) :
    Placed { s with pending := none, queue := s.queue ++ [r] } := by
  have hcoherent := h.coherent.put hpending
  obtain ⟨-, htaken, hsomewhere⟩ := h
  have hwaiting : System.waiting { s with pending := none, queue := s.queue ++ [r] } =
      s.waiting := by simp [waiting, hpending]
  refine ⟨hcoherent, ?_, ?_⟩
  · rw [hwaiting]
    exact htaken
  · rw [hwaiting]
    exact hsomewhere

/-- Every step keeps each request somewhere. -/
theorem step (h : s.Placed) {op : SystemOp} (hstep : SystemStep s op s') : s'.Placed := by
  have hcoherent := h.coherent.step hstep
  cases hstep with
  | loop idle fresh step => exact h.loop idle hcoherent
  | put pending room => exact h.put pending
  | take idle front => exact h.take idle front
  | work busy read => exact h.work busy
  | finish done => exact h.finish done

end Placed

/-- What is promised to those whose requests have been accepted. -/
structure ServesAll (s : System) : Prop where
  /-- Requests are taken in the order in which they have been accepted. -/
  in_order : ∃ taken, acceptedOf s.log = taken ++ s.waiting
  /-- Nothing is done for a request that waits, and no worker has it. -/
  waiting_untouched : ∀ r ∈ s.waiting, eventsOf r.id s.log = [] ∧ ¬ s.Working r
  /-- No two workers have the same request. -/
  one_worker : ∀ w w' j j', s.workers w = some j → s.workers w' = some j' →
    j.request = j'.request → w = w'
  /-- What is done for a request is asking, telling and storing at most once each, in this
  order and with one flag, over connections that are held one at a time. -/
  properly : ∀ r ∈ acceptedOf s.log, ∃ p held,
    (eventsOf r.id s.log).foldlM servingOnce .fresh = some p ∧
      (eventsOf r.id s.log).foldlM leasing none = some held
  /-- For a request that neither waits nor is with a worker, the run of its task has sent one
  reply with the flag of the verdict, and all its connections have been given back. -/
  finished : ∀ r ∈ acceptedOf s.log, r ∉ s.waiting → ¬ s.Working r →
    ∃ p, (eventsOf r.id s.log).foldlM servingOnce .fresh = some p ∧ p.told = true ∧
      (eventsOf r.id s.log).foldlM leasing none = some none

end System

/-- **Every accepted request is served once, in its order.** Whatever the clients send,
the back-ends answer and the threads interleave, each accepted request waits in the
order of acceptance, is with one worker, or has been answered: in the run of its task
one reply with the flag of the verdict has been sent. To whom it has gone is not said
here. -/
theorem every_request_served {st : Store} {ops : List SystemOp} {s : System}
    (hrun : Run SystemStep (System.start st) ops s) : s.ServesAll := by
  have h : s.Placed := hrun.invariant (fun _ _ _ h hstep => h.step hstep) (System.placed_start st)
  refine ⟨h.in_order, fun r hr => ⟨h.coherent.waiting_new r hr, ?_⟩, ?_, fun r hr => ?_, ?_⟩
  · rintro ⟨w, j, hj, rfl⟩
    exact h.coherent.waiting_idle _ hr w j hj rfl
  · intro w w' j j' hj hj' heq
    exact h.coherent.working_unique w w' j j' hj hj' (congrArg Request.id heq)
  · obtain ⟨rest, hexec⟩ := h.coherent.history r.id
    obtain ⟨p, hp, -⟩ := hexec.keeps runClientInfo_serves
    obtain ⟨held, hheld, -⟩ := hexec.keeps runClientInfo_keeps
    exact ⟨p, held, hp, hheld⟩
  · intro r hr hwaiting hworking
    obtain hr | hr | hfinished := h.somewhere r hr
    · exact absurd hr hwaiting
    · exact absurd hr hworking
    · obtain ⟨p, hp, htold⟩ := hfinished.keeps runClientInfo_serves
      obtain ⟨held, hheld, hreturned⟩ := hfinished.keeps runClientInfo_keeps
      obtain rfl : held = none := hreturned
      exact ⟨p, hp, htold, hheld⟩

/-- Two requests are served by two workers at a time, and the text of the second is
moderated. -/
theorem every_request_served_both : ∃ ops s,
    Run SystemStep (System.start freshStore) ops s ∧
      (∀ r ∈ [firstRequest, secondRequest],
        r ∈ acceptedOf s.log ∧ r ∉ s.waiting ∧ ¬ s.Working r) ∧
      (∃ conn req a, ⟨.check conn req, a⟩ ∈ eventsOf secondRequest.id s.log) ∧ s.ServesAll := by
  obtain ⟨ops, s, hrun, hfirst, hsecond, hwaiting, hidle, hevents⟩ :=
    run_bothServed (P := fun _ _ => True) trivial trivial (fun _ => trivial)
      (fun _ _ => trivial) (fun _ _ _ => trivial) fun _ _ => trivial
  have hdone : ∀ r, r ∉ s.waiting ∧ ¬ s.Working r := by
    intro r
    refine ⟨by simp [hwaiting], ?_⟩
    rintro ⟨w, j, hj, -⟩
    rw [hidle w] at hj
    cases hj
  obtain ⟨conn, req, a, hcheck⟩ := check_mem_secondEvents
  refine ⟨ops, s, hrun.unguard, ?_, ⟨conn, req, a, hevents _ hcheck⟩,
    every_request_served hrun.unguard⟩
  intro r hr
  rcases List.mem_pair.mp hr with rfl | rfl
  · exact ⟨mem_acceptedOf.mpr ⟨7, emptyPackage, hfirst⟩, hdone _⟩
  · exact ⟨mem_acceptedOf.mpr ⟨9, textPackage 3, hsecond⟩, hdone _⟩

end ThriftProxy
