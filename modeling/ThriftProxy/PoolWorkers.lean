import ThriftProxy.FirstUsable
import ThriftProxy.Leases
import ThriftProxy.PoolRegistry

/-!
# Worker threads on the connection pools

Any number of worker threads run handlers and get their connections from the
pools of the services, each call being one critical section. What happens to the
pool of one service is what its own calls do to it, so everything that holds of a
pool and its clients holds here. No connection is lost to a handler that has ended.
-/

namespace ThriftProxy

open Effect Program Transition

/-! ## The system -/

/-- A worker inside `ClientInfo::run`. -/
structure Handling where
  /-- What it has done in this run. -/
  events : List (Event HandlerSig)
  /-- What is left of the run. -/
  rest : Program HandlerSig Unit

/-- The pools and the worker threads. -/
structure PoolSystem where
  /-- `conn_pool_map_`. -/
  pools : ConnectionPoolMap
  /-- The worker threads, some of which run a handler. -/
  workers : List (Option Handling)

/-- A step of a worker, with what the environment supplies to it, or the server's end
of a connection closing. -/
inductive PoolSystemOp
  | run (w : ℕ)
  | getConnection (w : ℕ) (server : String) (outcome : ℕ → Bool)
  | release (w : ℕ) (server : String) (conn : ℕ) (state : Bool) (now : ℤ) (outcome : ℕ → Bool)
  | work (w : ℕ) (e : Event HandlerSig)
  | finish (w : ℕ)
  | peerClose (server : String) (conn : ℕ)

/-- Whether an operation goes to the table of pools. -/
def HandlerOp.callsPool : HandlerOp → Bool
  | getConnectionBySer _ => true
  | releaseConnectionBySer _ _ _ => true
  | _ => false

/-- The transition relation. The other parties may answer anything. -/
inductive PoolSystemStep : PoolSystem → PoolSystemOp → PoolSystem → Prop
  /-- A worker has taken a task. -/
  | run {s : PoolSystem} {w : ℕ} (idle : s.workers[w]? = some none) :
      PoolSystemStep s (.run w)
        { s with workers := s.workers.set w (some ⟨[], runClientInfo⟩) }
  | getConnection {s : PoolSystem} {w : ℕ} {server : String} {outcome : ℕ → Bool}
      {events : List (Event HandlerSig)} {next : Option ℕ → Program HandlerSig Unit}
      {pools : ConnectionPoolMap} {conn : Option ℕ}
      (busy : s.workers[w]? =
        some (some ⟨events, perform (S := HandlerSig) (.getConnectionBySer server) next⟩))
      (get : s.pools.getConnectionBySer server outcome = .ok (pools, conn)) :
      PoolSystemStep s (.getConnection w server outcome)
        { pools := pools
          workers := s.workers.set w
            (some ⟨events ++ [⟨.getConnectionBySer server, conn⟩], next conn⟩) }
  | release {s : PoolSystem} {w : ℕ} {server : String} {conn : ℕ} {state : Bool} {now : ℤ}
      {outcome : ℕ → Bool} {events : List (Event HandlerSig)}
      {next : Unit → Program HandlerSig Unit} {pools : ConnectionPoolMap}
      (busy : s.workers[w]? = some (some
        ⟨events, perform (S := HandlerSig) (.releaseConnectionBySer server conn state) next⟩))
      (release : s.pools.releaseConnectionBySer server conn state now outcome = .ok pools) :
      PoolSystemStep s (.release w server conn state now outcome)
        { pools := pools
          workers := s.workers.set w
            (some ⟨events ++ [⟨.releaseConnectionBySer server conn state, ()⟩], next ()⟩) }
  | work {s : PoolSystem} {w : ℕ} {op : HandlerOp} {answer : op.Answer}
      {events : List (Event HandlerSig)} {next : op.Answer → Program HandlerSig Unit}
      (busy : s.workers[w]? = some (some ⟨events, perform (S := HandlerSig) op next⟩))
      (other : op.callsPool = false) :
      PoolSystemStep s (.work w ⟨op, answer⟩)
        { s with workers := s.workers.set w (some ⟨events ++ [⟨op, answer⟩], next answer⟩) }
  | finish {s : PoolSystem} {w : ℕ} {events : List (Event HandlerSig)}
      (done : s.workers[w]? = some (some ⟨events, ret ()⟩)) :
      PoolSystemStep s (.finish w) { s with workers := s.workers.set w none }
  | peerClose {s : PoolSystem} {server : String} {conn : ℕ} {p : ConnectionPool}
      (pool : s.pools server = some p) :
      PoolSystemStep s (.peerClose server conn)
        { s with pools := Function.update s.pools server (some { p with
          connections := p.connections.modify conn Connection.closeTransport }) }

/-- The call of the pool of a service that a step makes. -/
def PoolSystemOp.callOf (server : String) : PoolSystemOp → Option LendingOp
  | getConnection w other outcome =>
    if other = server then some (.getConnection w outcome) else none
  | release w other conn state now outcome =>
    if other = server then some (.release w conn state now outcome) else none
  | peerClose other conn => if other = server then some (.peerClose conn) else none
  | _ => none

/-! ## What a worker holds -/

namespace Handling

/-- The connection that a worker has got in this run and not yet released. -/
def held (h : Handling) : Option Lease := (h.events.foldlM leasing none).getD none

/-- A worker has come to where it is by running `ClientInfo::run`. -/
def Proper (h : Handling) : Prop := Exec runClientInfo h.events h.rest

variable {h : Handling} {events : List (Event HandlerSig)} {rest : Program HandlerSig Unit}

/-- A worker keeps to its lease. -/
theorem Proper.keeps (h : Proper ⟨events, rest⟩) :
    events.foldlM leasing none = some (held ⟨events, rest⟩) ∧
      rest.Keeps leasing Returned (held ⟨events, rest⟩) := by
  obtain ⟨q, hq, hrest⟩ := Exec.keeps h runClientInfo_keeps
  have hheld : held ⟨events, rest⟩ = q := by rw [held, hq, Option.getD_some]
  rw [hheld]
  exact ⟨hq, hrest⟩

/-- An operation changes the lease as the discipline says. -/
theorem Proper.held_step {op : HandlerOp} {next : op.Answer → Program HandlerSig Unit}
    (h : Proper ⟨events, perform (S := HandlerSig) op next⟩) (answer : op.Answer) :
    leasing (held ⟨events, perform (S := HandlerSig) op next⟩) ⟨op, answer⟩ =
        some (held ⟨events ++ [⟨op, answer⟩], next answer⟩) ∧
      Proper ⟨events ++ [⟨op, answer⟩], next answer⟩ := by
  have hproper : Proper ⟨events ++ [⟨op, answer⟩], next answer⟩ := Exec.snoc h answer
  refine ⟨?_, hproper⟩
  obtain ⟨hold, -⟩ := h.keeps
  obtain ⟨hnew, -⟩ := hproper.keeps
  rw [List.foldlM_append, hold] at hnew
  simpa using hnew

/-- A worker that asks for a connection holds none. -/
theorem Proper.held_getConnection {server : String} {next : Option ℕ → Program HandlerSig Unit}
    (h : Proper ⟨events, perform (S := HandlerSig) (.getConnectionBySer server) next⟩)
    (conn : Option ℕ) :
    held ⟨events, perform (S := HandlerSig) (.getConnectionBySer server) next⟩ = none ∧
      held ⟨events ++ [⟨.getConnectionBySer server, conn⟩], next conn⟩ =
        conn.map fun i => (server, i) := by
  obtain ⟨hstep, -⟩ := h.held_step conn
  simp only [leasing] at hstep
  split at hstep
  · rename_i hnone
    exact ⟨hnone, (Option.some.inj hstep).symm⟩
  · cases hstep

/-- A worker that releases a connection holds it, and nothing afterwards. -/
theorem Proper.held_release {server : String} {conn : ℕ} {state : Bool}
    {next : Unit → Program HandlerSig Unit}
    (h : Proper
      ⟨events, perform (S := HandlerSig) (.releaseConnectionBySer server conn state) next⟩) :
    held ⟨events, perform (S := HandlerSig) (.releaseConnectionBySer server conn state) next⟩ =
        some (server, conn) ∧
      held ⟨events ++ [⟨.releaseConnectionBySer server conn state, ()⟩], next ()⟩ = none := by
  obtain ⟨hstep, -⟩ := h.held_step ()
  simp only [leasing] at hstep
  split at hstep
  · rename_i hheld
    exact ⟨hheld, (Option.some.inj hstep).symm⟩
  · cases hstep

/-- Other operations leave the lease alone. -/
theorem Proper.held_work {op : HandlerOp} {next : op.Answer → Program HandlerSig Unit}
    (h : Proper ⟨events, perform (S := HandlerSig) op next⟩) (hop : op.callsPool = false)
    (answer : op.Answer) :
    held ⟨events ++ [⟨op, answer⟩], next answer⟩ =
      held ⟨events, perform (S := HandlerSig) op next⟩ := by
  obtain ⟨hstep, -⟩ := h.held_step answer
  have hsame : ∀ held q, leasing held ⟨op, answer⟩ = some q → q = held := by
    intro held q hq
    cases op with
    | read f => exact (Option.some.inj hq).symm
    | write dst offset count => exact (Option.some.inj hq).symm
    | netSendCli fd buf len => exact (Option.some.inj hq).symm
    | getConnectionBySer server => cases hop
    | releaseConnectionBySer server conn state => cases hop
    | check conn req =>
      obtain ⟨-, hq⟩ := Option.ite_none_right_eq_some.mp hq
      exact (Option.some.inj hq).symm
    | storeMessage conn req =>
      obtain ⟨-, hq⟩ := Option.ite_none_right_eq_some.mp hq
      exact (Option.some.inj hq).symm
  exact hsame _ _ hstep

/-- A worker that is done holds nothing. -/
theorem Proper.held_ret (h : Proper ⟨events, ret ()⟩) : held ⟨events, ret ()⟩ = none := h.keeps.2

end Handling

namespace PoolSystem

/-- The table with all workers idle. -/
def start (pools : ConnectionPoolMap) (threadNum : ℕ) : PoolSystem :=
  { pools := pools, workers := List.replicate threadNum none }

/-- A worker holds a connection of a service. -/
def Holds (s : PoolSystem) (w : ℕ) (server : String) (conn : ℕ) : Prop :=
  ∃ h, s.workers[w]? = some (some h) ∧ h.held = some (server, conn)

/-- The workers run `ClientInfo::run`. -/
def Proper (s : PoolSystem) : Prop := ∀ h, some h ∈ s.workers → Handling.Proper h

/-- A pool and its clients, seen from one service. -/
structure Shows (server : String) (s : PoolSystem) (ls : LendingState) : Prop where
  /-- The workers run `ClientInfo::run`. -/
  proper : s.Proper
  /-- The pool is that of the service. -/
  pool : s.pools server = some ls.pool
  /-- The loans are what the workers hold. -/
  mem_loans : ∀ w conn, (w, conn) ∈ ls.loans ↔ s.Holds w server conn
  /-- There is one loan for each. -/
  nodup : ls.loans.Nodup

section

variable {s : PoolSystem} {w w' : ℕ} {server : String} {conn : ℕ} {old job : Option Handling}
  {pools : ConnectionPoolMap}

/-- What the worker in a place holds. -/
theorem holds_iff (hold : s.workers[w]? = some old) :
    s.Holds w server conn ↔ old.bind Handling.held = some (server, conn) := by
  unfold Holds
  rw [hold]
  cases old with
  | none => simp
  | some h => simp

/-- One worker goes on and the others stay. -/
theorem holds_set (hold : s.workers[w]? = some old) (job : Option Handling) :
    Holds { pools := pools, workers := s.workers.set w job } w' server conn ↔
      if w' = w then job.bind Handling.held = some (server, conn) else s.Holds w' server conn := by
  have hlt : w < s.workers.length := (List.getElem?_eq_some_iff.mp hold).1
  by_cases heq : w' = w
  · subst heq
    rw [if_pos rfl]
    exact holds_iff (List.getElem?_set_self hlt)
  · rw [if_neg heq]
    unfold Holds
    simp only [List.getElem?_set_ne (Ne.symm heq)]

/-- Workers stay within `ClientInfo::run`. -/
theorem Proper.set (h : s.Proper) (hjob : ∀ h, job = some h → Handling.Proper h) :
    Proper { pools := pools, workers := s.workers.set w job } := by
  intro handling hmem
  rcases List.mem_or_eq_of_mem_set hmem with hmem | heq
  · exact h handling hmem
  · exact hjob handling heq.symm

/-- A busy worker runs `ClientInfo::run`. -/
theorem Proper.of_busy (h : s.Proper) {handling : Handling}
    (hbusy : s.workers[w]? = some (some handling)) : handling.Proper :=
  h handling (List.mem_of_getElem? hbusy)

end

namespace Shows

variable {s : PoolSystem} {ls : LendingState} {w conn : ℕ} {server : String}
  {old job : Option Handling} {pools : ConnectionPoolMap}

/-- A step of a worker that leaves the service and the loans from it alone. -/
theorem keep (h : Shows server s ls) (hold : s.workers[w]? = some old)
    (hjob : ∀ h, job = some h → Handling.Proper h) (hpool : pools server = s.pools server)
    (hsame : ∀ conn, job.bind Handling.held = some (server, conn) ↔
      old.bind Handling.held = some (server, conn)) :
    Shows server { pools := pools, workers := s.workers.set w job } ls where
  proper := h.proper.set hjob
  pool := hpool.trans h.pool
  mem_loans w' conn := by
    rw [h.mem_loans, holds_set hold]
    by_cases heq : w' = w
    · rw [if_pos heq, heq, hsame, holds_iff hold]
    · rw [if_neg heq]
  nodup := h.nodup

/-- A worker gets a connection of the service. -/
theorem lend (h : Shows server s ls) (hold : s.workers[w]? = some old)
    (hjob : ∀ h, job = some h → Handling.Proper h) {p : ConnectionPool}
    (hnone : old.bind Handling.held = none) (hheld : job.bind Handling.held = some (server, conn)) :
    Shows server { pools := Function.update s.pools server (some p), workers := s.workers.set w job }
      { pool := p, loans := (w, conn) :: ls.loans } where
  proper := h.proper.set hjob
  pool := Function.update_self ..
  mem_loans w' conn' := by
    rw [List.mem_cons, h.mem_loans, holds_set hold]
    by_cases heq : w' = w
    · have hnot : ¬ s.Holds w server conn' := by simp [holds_iff hold, hnone]
      rw [if_pos heq, heq, hheld]
      simp [hnot, eq_comm]
    · simp [heq]
  nodup := by
    refine List.nodup_cons.mpr ⟨?_, h.nodup⟩
    rw [h.mem_loans, holds_iff hold, hnone]
    nofun

/-- A worker gives a connection of the service back. -/
theorem take (h : Shows server s ls) (hold : s.workers[w]? = some old)
    (hjob : ∀ h, job = some h → Handling.Proper h) {p : ConnectionPool}
    (hheld : old.bind Handling.held = some (server, conn)) (hnone : job.bind Handling.held = none) :
    Shows server { pools := Function.update s.pools server (some p), workers := s.workers.set w job }
      { pool := p, loans := ls.loans.erase (w, conn) } where
  proper := h.proper.set hjob
  pool := Function.update_self ..
  mem_loans w' conn' := by
    rw [h.nodup.mem_erase_iff, h.mem_loans, holds_set hold]
    by_cases heq : w' = w
    · rw [if_pos heq, heq, hnone, holds_iff hold, hheld]
      simp [eq_comm]
    · simp [heq]
  nodup := h.nodup.erase _

/-- The pool changes and the loans stay. -/
theorem repool (h : Shows server s ls) (p : ConnectionPool) :
    Shows server { s with pools := Function.update s.pools server (some p) }
      { ls with pool := p } where
  proper := h.proper
  pool := Function.update_self ..
  mem_loans := h.mem_loans
  nodup := h.nodup

/-- A call through the table of pools changes no other service. -/
theorem other (h : Shows server s ls) {server' : String} (hne : server' ≠ server)
    (p : Option ConnectionPool) :
    Shows server { s with pools := Function.update s.pools server' p } ls where
  proper := h.proper
  pool := (Function.update_of_ne (Ne.symm hne) _ _).trans h.pool
  mem_loans := h.mem_loans
  nodup := h.nodup

/-- A worker calls `getConnectionBySer`. -/
theorem getConnection (h : Shows server s ls) {events : List (Event HandlerSig)}
    {next : Option ℕ → Program HandlerSig Unit} {server' : String} {outcome : ℕ → Bool}
    {r : Option ℕ}
    (hbusy : s.workers[w]? =
      some (some ⟨events, perform (S := HandlerSig) (.getConnectionBySer server') next⟩))
    (hget : s.pools.getConnectionBySer server' outcome = .ok (pools, r)) :
    ∃ ls', Run LendingState.Step ls
        ((PoolSystemOp.getConnection w server' outcome).callOf server).toList ls' ∧
      Shows server
        { pools := pools
          workers := s.workers.set w
            (some ⟨events ++ [⟨.getConnectionBySer server', r⟩], next r⟩) } ls' := by
  have hproper := h.proper.of_busy hbusy
  obtain ⟨hnone, hheld⟩ := hproper.held_getConnection r
  have hjob : ∀ h, some ⟨events ++ [⟨.getConnectionBySer server', r⟩], next r⟩ = some h →
      Handling.Proper h := by
    rintro _ ⟨⟩
    exact (hproper.held_step r).2
  rcases ConnectionPoolMap.getConnectionBySer_cases hget with
    ⟨hpool, rfl, rfl⟩ | ⟨p, p', hpool, hp, rfl⟩
  · -- a service without a pool
    have hne : server' ≠ server := by
      rintro rfl
      rw [h.pool] at hpool
      cases hpool
    refine ⟨ls, by simp [PoolSystemOp.callOf, hne], h.keep hbusy hjob rfl ?_⟩
    simp [hnone, hheld]
  · by_cases hserver : server' = server
    · subst hserver
      obtain rfl : ls.pool = p := Option.some.inj (h.pool.symm.trans hpool)
      simp only [PoolSystemOp.callOf, if_pos, Option.toList_some]
      cases r with
      | none =>
        refine ⟨{ ls with pool := p' }, Run.cons ?_ (Run.nil _), ?_⟩
        · simp [LendingState.Step, LendingState.step, hp]
        · refine (h.repool p').keep hbusy hjob rfl ?_
          simp [hnone, hheld]
      | some conn =>
        refine ⟨_, Run.cons ?_ (Run.nil _), h.lend hbusy hjob hnone hheld⟩
        simp [LendingState.Step, LendingState.step, hp]
    · refine ⟨ls, by simp [PoolSystemOp.callOf, hserver],
        h.keep hbusy hjob (Function.update_of_ne (Ne.symm hserver) _ _) ?_⟩
      intro conn
      cases r <;> simp [hnone, hheld, hserver]

/-- A worker calls `releaseConnectionBySer`. -/
theorem release (h : Shows server s ls) {events : List (Event HandlerSig)}
    {next : Unit → Program HandlerSig Unit} {server' : String} {state : Bool} {now : ℤ}
    {outcome : ℕ → Bool}
    (hbusy : s.workers[w]? = some (some
      ⟨events, perform (S := HandlerSig) (.releaseConnectionBySer server' conn state) next⟩))
    (hrelease : s.pools.releaseConnectionBySer server' conn state now outcome = .ok pools) :
    ∃ ls', Run LendingState.Step ls
        ((PoolSystemOp.release w server' conn state now outcome).callOf server).toList ls' ∧
      Shows server
        { pools := pools
          workers := s.workers.set w
            (some ⟨events ++ [⟨.releaseConnectionBySer server' conn state, ()⟩], next ()⟩) } ls' := by
  have hproper := h.proper.of_busy hbusy
  obtain ⟨hheld, hnone⟩ := hproper.held_release
  have hjob : ∀ h, some ⟨events ++ [⟨.releaseConnectionBySer server' conn state, ()⟩], next ()⟩ =
      some h → Handling.Proper h := by
    rintro _ ⟨⟩
    exact (hproper.held_step ()).2
  obtain ⟨p, p', hpool, hp, rfl⟩ := ConnectionPoolMap.releaseConnectionBySer_cases hrelease
  by_cases hserver : server' = server
  · subst hserver
    obtain rfl : ls.pool = p := Option.some.inj (h.pool.symm.trans hpool)
    have hloan : (w, conn) ∈ ls.loans := (h.mem_loans w conn).mpr ((holds_iff hbusy).mpr hheld)
    simp only [PoolSystemOp.callOf, if_pos, Option.toList_some]
    refine ⟨_, Run.cons ?_ (Run.nil _), h.take hbusy hjob hheld hnone⟩
    simp [LendingState.Step, LendingState.step, hloan, hp]
  · refine ⟨ls, by simp [PoolSystemOp.callOf, hserver],
      h.keep hbusy hjob (Function.update_of_ne (Ne.symm hserver) _ _) ?_⟩
    simp [hnone, hheld, hserver]

/-- Every step of the system is a call of the pool, or none. -/
theorem step {op : PoolSystemOp} {s' : PoolSystem} (h : Shows server s ls)
    (hstep : PoolSystemStep s op s') :
    ∃ ls', Run LendingState.Step ls (op.callOf server).toList ls' ∧ Shows server s' ls' := by
  cases hstep with
  | run idle =>
    refine ⟨ls, Run.nil _, h.keep idle ?_ rfl fun conn => by simp [Handling.held]⟩
    rintro _ ⟨⟩
    exact Exec.refl _
  | getConnection busy get => exact h.getConnection busy get
  | release busy release => exact h.release busy release
  | @work w op answer events next busy other =>
    have hproper := h.proper.of_busy busy
    refine ⟨ls, Run.nil _, h.keep busy ?_ rfl fun conn => ?_⟩
    · rintro _ ⟨⟩
      exact (hproper.held_step answer).2
    · rw [Option.bind_some, Option.bind_some, hproper.held_work other answer]
  | finish done =>
    refine ⟨ls, Run.nil _, h.keep done nofun rfl fun conn => ?_⟩
    rw [Option.bind_none, Option.bind_some, (h.proper.of_busy done).held_ret]
  | @peerClose server' conn p pool =>
    by_cases hserver : server' = server
    · subst hserver
      obtain rfl : ls.pool = p := Option.some.inj (h.pool.symm.trans pool)
      simp only [PoolSystemOp.callOf, if_pos, Option.toList_some]
      exact ⟨_, Run.cons rfl (Run.nil _), h.repool _⟩
    · exact ⟨ls, by simp [PoolSystemOp.callOf, hserver], h.other hserver _⟩

end Shows

/-- At the start nobody holds anything. -/
theorem shows_start {pools : ConnectionPoolMap} {server : String} {p : ConnectionPool}
    (h : pools server = some p) (threadNum : ℕ) :
    Shows server (start pools threadNum) (.initial p) where
  proper := by
    intro handling hmem
    cases List.eq_of_mem_replicate hmem
  pool := h
  mem_loans w conn := by
    refine iff_of_false nofun ?_
    rintro ⟨handling, hw, -⟩
    cases List.eq_of_mem_replicate (List.mem_of_getElem? hw)
  nodup := List.nodup_nil

end PoolSystem

/-- **Services do not interfere.** In every run of worker threads on the table of
pools, the pool of a service and the connections that workers hold of it are those
of a pool with clients that make the calls to this service and no others. A client
releases what it has got, and holds one connection at a time. -/
theorem workers_refine_lending {pools : ConnectionPoolMap} {server : String} {p : ConnectionPool}
    (h : pools server = some p) {threadNum : ℕ} {ops : List PoolSystemOp} {s : PoolSystem}
    (hrun : Run PoolSystemStep (.start pools threadNum) ops s) :
    ∃ ls, Run LendingState.Step (.initial p) (ops.filterMap (PoolSystemOp.callOf server)) ls ∧
      PoolSystem.Shows server s ls :=
  hrun.project (R := PoolSystem.Shows server) (fun _ _ _ _ hshows hstep => hshows.step hstep)
    (PoolSystem.shows_start h threadNum)

/-- The single-connection pool under its name. -/
def singleTable : ConnectionPoolMap := Function.update (fun _ => none) "tis" (some singlePool)

/-- The pool in the table. -/
theorem singleTable_tis : singleTable "tis" = some singlePool := Function.update_self ..

/-- A single-connection pool for the second service. -/
def dbserPool : ConnectionPool := { singlePool with serverName := "dbser" }

/-- The pools of both services. -/
def serviceTable : ConnectionPoolMap := Function.update singleTable "dbser" (some dbserPool)

/-- Two workers take a task each, and the servers close both connections. The first worker
gets the moderation connection, which is reopened, gives it back as failed when `check`
throws, and refuses the request. Meanwhile the second gets the same connection, and then
the first gets the storage connection. -/
def serviceOps : List PoolSystemOp :=
  [.run 0, .run 1, .peerClose "tis" 0, .peerClose "dbser" 0,
    .work 0 ⟨.read .callBackFunc, Func.tisProtoHandler⟩, .work 0 ⟨.read .content, []⟩,
    .work 0 ⟨.read .gameId, (5 : UInt32)⟩, .work 0 ⟨.read .type, (1 : UInt8)⟩,
    .work 0 ⟨.read .userid, (7 : UInt32)⟩, .getConnection 0 "tis" fun _ => true,
    .work 0 ⟨.check 0 (tisRequest [] 5 7), none⟩, .release 0 "tis" 0 false 60 fun _ => true,
    .work 1 ⟨.read .callBackFunc, Func.tisProtoHandler⟩, .work 1 ⟨.read .content, []⟩,
    .work 1 ⟨.read .gameId, (5 : UInt32)⟩, .work 1 ⟨.read .type, (1 : UInt8)⟩,
    .work 1 ⟨.read .userid, (8 : UInt32)⟩, .getConnection 1 "tis" fun _ => true,
    .work 0 ⟨.read .cliSeq, (3 : UInt32)⟩, .work 0 ⟨.read .cliCmd, (0x4702 : UInt16)⟩,
    .work 0 ⟨.read .userid, (7 : UInt32)⟩, .work 0 ⟨.write .sendToClient 0 18, ()⟩,
    .work 0 ⟨.read .cliFd, (7 : Int32)⟩,
    .work 0 ⟨.netSendCli 7 (ProtoHeader.encode ⟨18, 3, 0x4702, 1001, 7⟩ ++ []) 18, ()⟩,
    .getConnection 0 "dbser" fun _ => true]

/-- In the end each worker holds a connection of its own service. -/
theorem serviceTable_run : ∃ s, Run PoolSystemStep (.start serviceTable 2) serviceOps s ∧
    s.Holds 0 "dbser" 0 ∧ s.Holds 1 "tis" 0 := by
  refine ⟨_, Run.cons (.run rfl) <| Run.cons (.run rfl) <| Run.cons (.peerClose rfl) <|
    Run.cons (.peerClose rfl) <| Run.cons (.work rfl rfl) <| Run.cons (.work rfl rfl) <|
    Run.cons (.work rfl rfl) <| Run.cons (.work rfl rfl) <| Run.cons (.work rfl rfl) <|
    Run.cons (.getConnection rfl rfl) <| Run.cons (.work rfl rfl) <|
    Run.cons (.release rfl rfl) <| Run.cons (.work rfl rfl) <| Run.cons (.work rfl rfl) <|
    Run.cons (.work rfl rfl) <| Run.cons (.work rfl rfl) <| Run.cons (.work rfl rfl) <|
    Run.cons (.getConnection rfl rfl) <| Run.cons (.work rfl rfl) <| Run.cons (.work rfl rfl) <|
    Run.cons (.work rfl rfl) <| Run.cons (.work rfl rfl) <| Run.cons (.work rfl rfl) <|
    Run.cons (.work rfl rfl) <| Run.cons (.getConnection rfl rfl) (Run.nil _), ?_, ?_⟩
  · exact ⟨_, rfl, rfl⟩
  · exact ⟨_, rfl, rfl⟩

/-- What the two workers do to the pool of the moderation service. -/
theorem workers_refine_lending_serviceTable :
    serviceTable "tis" = some singlePool ∧
      ∃ s ls, Run LendingState.Step (.initial singlePool)
          [.peerClose 0, .getConnection 0 fun _ => true, .release 0 0 false 60 fun _ => true,
            .getConnection 1 fun _ => true] ls ∧
        PoolSystem.Shows "tis" s ls ∧ s.Holds 1 "tis" 0 := by
  have htis : serviceTable "tis" = some singlePool := rfl
  obtain ⟨s, hrun, -, hheld⟩ := serviceTable_run
  obtain ⟨ls, hlending, hshows⟩ := workers_refine_lending htis hrun
  exact ⟨htis, s, ls, hlending, hshows, hheld⟩

/-! ## No connection is lost -/

namespace PoolSystem

/-- No connection is lost to the handlers. -/
structure NothingLost (s : PoolSystem) : Prop where
  /-- A connection that is marked busy is held by a worker inside its handler. -/
  busy_held : ∀ server p i, s.pools server = some p → p.busyAt i = true → ∃ w, s.Holds w server i
  /-- When no worker runs a handler, every connection can be lent. -/
  idle : (∀ h, some h ∉ s.workers) → ∀ server p i, s.pools server = some p → p.busyAt i = false
  /-- A worker that comes to a release finds the pool and the connection. -/
  releases : ∀ (w : ℕ) (h : Handling) (server : String) (conn : ℕ) (state : Bool)
    (next : Unit → Program HandlerSig Unit), s.workers[w]? = some (some h) →
    h.rest = perform (S := HandlerSig) (.releaseConnectionBySer server conn state) next →
    ∀ now outcome, ∃ pools,
      s.pools.releaseConnectionBySer server conn state now outcome = .ok pools

/-- A service without a pool, of which nobody holds anything. -/
structure Unknown (server : String) (s : PoolSystem) : Prop where
  /-- The workers run `ClientInfo::run`. -/
  proper : s.Proper
  /-- There is no pool. -/
  pool : s.pools server = none
  /-- Nobody holds a connection. -/
  not_holds : ∀ w conn, ¬ s.Holds w server conn

namespace Unknown

variable {s s' : PoolSystem} {server : String}

/-- A step of a worker that gets nothing from the service. -/
theorem keep (h : s.Unknown server) {w : ℕ} {old job : Option Handling}
    {pools : ConnectionPoolMap} (hold : s.workers[w]? = some old)
    (hjob : ∀ h, job = some h → Handling.Proper h) (hpool : pools server = s.pools server)
    (hnot : ∀ conn, job.bind Handling.held ≠ some (server, conn)) :
    Unknown server { pools := pools, workers := s.workers.set w job } where
  proper := h.proper.set hjob
  pool := hpool.trans h.pool
  not_holds w' conn := by
    rw [holds_set hold]
    split
    · exact hnot conn
    · exact h.not_holds w' conn

/-- What a busy worker holds is not of the service. -/
theorem held_ne (h : s.Unknown server) {w : ℕ} {handling : Handling}
    (hbusy : s.workers[w]? = some (some handling)) (conn : ℕ) :
    handling.held ≠ some (server, conn) :=
  fun hheld => h.not_holds w conn ⟨handling, hbusy, hheld⟩

/-- The pools of other services may change. -/
theorem update_eq (h : s.Unknown server) {server' : String} {p : ConnectionPool}
    (hp : s.pools server' = some p) (q : Option ConnectionPool) :
    Function.update s.pools server' q server = s.pools server := by
  refine Function.update_of_ne ?_ _ _
  rintro rfl
  rw [h.pool] at hp
  cases hp

/-- A service stays without a pool. -/
theorem step {op : PoolSystemOp} (h : s.Unknown server) (hstep : PoolSystemStep s op s') :
    s'.Unknown server := by
  cases hstep with
  | run idle =>
    refine h.keep idle ?_ rfl fun conn => by simp [Handling.held]
    rintro _ ⟨⟩
    exact Exec.refl _
  | @work w op answer events next busy other =>
    have hproper := h.proper.of_busy busy
    refine h.keep busy ?_ rfl fun conn => ?_
    · rintro _ ⟨⟩
      exact (hproper.held_step answer).2
    · rw [Option.bind_some, hproper.held_work other answer]
      exact h.held_ne busy conn
  | finish done => exact h.keep done nofun rfl nofun
  | peerClose pool =>
    exact ⟨h.proper, (h.update_eq pool _).trans h.pool, h.not_holds⟩
  | @getConnection w server' outcome events next pools r busy get =>
    have hproper := h.proper.of_busy busy
    obtain ⟨-, hheld⟩ := hproper.held_getConnection r
    have hjob : ∀ h, some ⟨events ++ [⟨.getConnectionBySer server', r⟩], next r⟩ = some h →
        Handling.Proper h := by
      rintro _ ⟨⟩
      exact (hproper.held_step r).2
    obtain ⟨-, rfl, rfl⟩ | ⟨p, p', hp, -, rfl⟩ := ConnectionPoolMap.getConnectionBySer_cases get
    · exact h.keep busy hjob rfl fun conn => by simp [hheld]
    · refine h.keep busy hjob (h.update_eq hp _) fun conn => ?_
      have hne : server' ≠ server := by
        rintro rfl
        rw [h.pool] at hp
        cases hp
      cases r <;> simp [hheld, hne]
  | @release w server' conn state now outcome events next pools busy release =>
    have hproper := h.proper.of_busy busy
    obtain ⟨-, hnone⟩ := hproper.held_release
    obtain ⟨p, p', hp, -, rfl⟩ := ConnectionPoolMap.releaseConnectionBySer_cases release
    refine h.keep busy ?_ (h.update_eq hp _) fun conn => by simp [hnone]
    rintro _ ⟨⟩
    exact (hproper.held_step ()).2

end Unknown

/-- At the start nobody holds anything of a service without a pool. -/
theorem unknown_start {pools : ConnectionPoolMap} {server : String} (h : pools server = none)
    (threadNum : ℕ) : (start pools threadNum).Unknown server where
  proper := by
    intro handling hmem
    cases List.eq_of_mem_replicate hmem
  pool := h
  not_holds w conn := by
    rintro ⟨handling, hw, -⟩
    cases List.eq_of_mem_replicate (List.mem_of_getElem? hw)

end PoolSystem

/-- Every pool of a table is initialised. -/
def ConnectionPoolMap.Initialised (pools : ConnectionPoolMap) : Prop :=
  ∀ server p, pools server = some p → p.Initialised

namespace PoolSystem

variable {pools : ConnectionPoolMap} {threadNum : ℕ} {ops : List PoolSystemOp} {s : PoolSystem}

/-- In a run from initialised pools, a service has no pool or that of a state of its clients. -/
theorem known_or_unknown (h : pools.Initialised)
    (hrun : Run PoolSystemStep (start pools threadNum) ops s) (server : String) :
    s.Unknown server ∨ ∃ p₀ ls, pools server = some p₀ ∧ Shows server s ls ∧
      ls.Kept p₀.connections.length := by
  cases hp₀ : pools server with
  | none =>
    exact .inl (hrun.invariant (I := Unknown server) (fun _ _ _ hs hstep => hs.step hstep)
      (unknown_start hp₀ threadNum))
  | some p₀ =>
    obtain ⟨ls, hls, hshows⟩ := workers_refine_lending hp₀ hrun
    exact .inr ⟨p₀, ls, rfl, hshows, LendingState.kept_of_run (h server p₀ hp₀) hls⟩

/-- The pool of a service is that of a state of its clients. -/
theorem exists_shows (h : pools.Initialised)
    (hrun : Run PoolSystemStep (start pools threadNum) ops s) {server : String}
    {p : ConnectionPool} (hp : s.pools server = some p) :
    ∃ p₀ ls, pools server = some p₀ ∧ Shows server s ls ∧ ls.Kept p₀.connections.length ∧
      ls.pool = p := by
  obtain hunknown | ⟨p₀, ls, hp₀, hshows, hkept⟩ := known_or_unknown h hrun server
  · rw [hunknown.pool] at hp
    cases hp
  · exact ⟨p₀, ls, hp₀, hshows, hkept, Option.some.inj (hshows.pool.symm.trans hp)⟩

/-- A busy connection is held by a worker. -/
theorem busy_held (h : pools.Initialised) (hrun : Run PoolSystemStep (start pools threadNum) ops s)
    {server : String} {p : ConnectionPool} (hp : s.pools server = some p) {i : ℕ}
    (hbusy : p.busyAt i = true) : ∃ w, s.Holds w server i := by
  obtain ⟨p₀, ls, -, hshows, hkept, rfl⟩ := exists_shows h hrun hp
  obtain ⟨⟨w, conn⟩, hloan, rfl⟩ := List.mem_map.mp (hkept.busyHeld i hbusy)
  exact ⟨w, (hshows.mem_loans w conn).mp hloan⟩

/-- A worker that holds a connection is inside its handler, and holds no other one. -/
theorem Holds.unique {w : ℕ} {server server' : String} {conn conn' : ℕ}
    (h : s.Holds w server conn) (h' : s.Holds w server' conn') :
    server = server' ∧ conn = conn' := by
  obtain ⟨handling, hw, hheld⟩ := h
  obtain ⟨handling', hw', hheld'⟩ := h'
  obtain rfl := Option.some.inj (Option.some.inj (hw.symm.trans hw'))
  exact Prod.mk.inj (Option.some.inj (hheld.symm.trans hheld'))

end PoolSystem

/-- **No connection is lost.** Whatever the back-ends answer and however the worker
threads are interleaved, a connection that is marked busy is held by a worker inside
its handler. When all handlers have ended, nothing is busy. And a handler never
releases a connection that the table of pools does not have. -/
theorem no_connection_lost {pools : ConnectionPoolMap} (h : pools.Initialised) {threadNum : ℕ}
    {ops : List PoolSystemOp} {s : PoolSystem}
    (hrun : Run PoolSystemStep (.start pools threadNum) ops s) : s.NothingLost where
  busy_held server p i hp hbusy := PoolSystem.busy_held h hrun hp hbusy
  idle hidle server p i hp := by
    by_contra hbusy
    obtain ⟨w, handling, hw, -⟩ :=
      PoolSystem.busy_held h hrun hp (Bool.eq_true_of_not_eq_false hbusy)
    exact hidle handling (List.mem_of_getElem? hw)
  releases := by
    rintro w ⟨events, rest⟩ server conn state next hbusy rfl now outcome
    obtain hunknown | ⟨p₀, ls, -, hshows, hkept⟩ := PoolSystem.known_or_unknown h hrun server
    · obtain ⟨hheld, -⟩ := (hunknown.proper.of_busy hbusy).held_release
      exact absurd hheld (hunknown.held_ne hbusy conn)
    · obtain ⟨hheld, -⟩ := (hshows.proper.of_busy hbusy).held_release
      have hloan := (hshows.mem_loans w conn).mpr ⟨_, hbusy, hheld⟩
      have hlt := hkept.valid.held_lt conn (List.mem_map.mpr ⟨_, hloan, rfl⟩)
      refine ⟨Function.update s.pools server
        (some (ls.pool.afterRelease conn state now outcome)), ?_⟩
      rw [ConnectionPoolMap.releaseConnectionBySer, ConnectionPoolMap.selectConnPool, hshows.pool]
      simp only [ConnectionPool.release_eq hkept.valid.wellFormed state now outcome hlt]

/-- The single-connection pool is initialised. -/
theorem singleTable_initialised : singleTable.Initialised := by
  intro server p hp
  by_cases hserver : server = "tis"
  · subst hserver
    obtain rfl : singlePool = p := Option.some.inj hp
    exact singlePool_initialised
  · rw [singleTable, Function.update_of_ne hserver] at hp
    cases hp

/-- The pools of both services are initialised. -/
theorem serviceTable_initialised : serviceTable.Initialised := by
  intro server p hp
  by_cases hserver : server = "dbser"
  · subst hserver
    obtain rfl : dbserPool = p := Option.some.inj hp
    exact ⟨⟨"dbser", [("10.1.1.83", 9093)], 0, 1, 1, 5, fun _ => true, by decide⟩, by decide,
      by decide⟩
  · rw [serviceTable, Function.update_of_ne hserver] at hp
    exact singleTable_initialised server p hp

/-- Nothing is lost when each worker holds a connection of its own service. -/
theorem no_connection_lost_serviceTable :
    serviceTable.Initialised ∧
      ∃ s, Run PoolSystemStep (.start serviceTable 2) serviceOps s ∧ s.Holds 0 "dbser" 0 ∧
        s.Holds 1 "tis" 0 ∧ s.NothingLost := by
  obtain ⟨s, hrun, hstorage, hmoderation⟩ := serviceTable_run
  exact ⟨serviceTable_initialised, s, hrun, hstorage, hmoderation,
    no_connection_lost serviceTable_initialised hrun⟩

/-! ## No worker starves -/

namespace PoolSystem

/-- Worker threads are neither made nor lost. -/
theorem length_workers_step {s s' : PoolSystem} {op : PoolSystemOp}
    (h : PoolSystemStep s op s') : s'.workers.length = s.workers.length := by
  cases h with
  | peerClose pool => rfl
  | _ => exact List.length_set

/-- The number of worker threads stays. -/
theorem length_workers {pools : ConnectionPoolMap} {threadNum : ℕ} {ops : List PoolSystemOp}
    {s : PoolSystem} (hrun : Run PoolSystemStep (start pools threadNum) ops s) :
    s.workers.length = threadNum :=
  hrun.invariant (I := fun s => s.workers.length = threadNum)
    (fun _ _ _ hlen hstep => (length_workers_step hstep).trans hlen) List.length_replicate

/-- Connections held by workers other than one are fewer than the workers. -/
theorem size_lt_of_held {s : PoolSystem} {server : String} {size w : ℕ}
    (hw : w < s.workers.length) (hnone : ∀ conn, ¬ s.Holds w server conn)
    (hheld : ∀ i < size, ∃ w, s.Holds w server i) : size < s.workers.length := by
  choose! holder hholder using hheld
  have hmaps : ∀ i ∈ Finset.range size, holder i ∈ (Finset.range s.workers.length).erase w := by
    intro i hi
    have hholds := hholder i (Finset.mem_range.mp hi)
    obtain ⟨handling, hbusy, -⟩ := hholds
    rw [Finset.mem_erase, Finset.mem_range]
    refine ⟨?_, (List.getElem?_eq_some_iff.mp hbusy).1⟩
    intro heq
    exact hnone i (heq ▸ hholder i (Finset.mem_range.mp hi))
  have hinj : Set.InjOn holder (Finset.range size) := by
    intro i hi j hj heq
    have hi' := hholder i (Finset.mem_range.mp hi)
    have hj' := hholder j (Finset.mem_range.mp hj)
    rw [← heq] at hj'
    exact (hi'.unique hj').2
  have hcard := Finset.card_le_card_of_injOn holder hmaps hinj
  rw [Finset.card_range, Finset.card_erase_of_mem (Finset.mem_range.mpr hw),
    Finset.card_range] at hcard
  omega

/-- When the back-ends accept, `getConnection` gives NULL only with all connections busy. -/
theorem busyAt_of_getConnection_null {p p' : ConnectionPool} (h : p.WellFormed)
    {outcome : ℕ → Bool} (hopens : ∀ i, outcome i = true)
    (hget : p.getConnection outcome = .ok (p', none)) {i : ℕ} (hi : i < p.connections.length) :
    p.busyAt i = true := by
  obtain ⟨k, hk, -⟩ | ⟨-, hnone, -⟩ := ConnectionPool.getConnection_cases h hget
  · cases hk
  · have hfails := ConnectionPool.find_reopensAt_eq_none_iff.mp hnone.symm i
    rw [reopensAt, List.getElem?_eq_getElem hi, Option.any_some, Connection.opens, hopens,
      Bool.or_true, Bool.and_true, Bool.not_eq_false'] at hfails
    exact ConnectionPool.busyAt_iff.mpr ⟨_, List.getElem?_eq_getElem hi, hfails⟩

end PoolSystem

/-- **No worker starves.** Where an initialised pool, whose vector is as long as its size
says, has a connection for each worker thread and the back-ends accept, a worker that asks
for a connection gets one, in every state the workers can reach before the counter of the
pool has overflowed. -/
theorem getConnectionBySer_not_null {pools : ConnectionPoolMap} (h : pools.Initialised)
    {threadNum : ℕ} {ops : List PoolSystemOp} {s : PoolSystem}
    (hrun : Run PoolSystemStep (.start pools threadNum) ops s) {w : ℕ} {server : String}
    {events : List (Event HandlerSig)} {next : Option ℕ → Program HandlerSig Unit}
    (hbusy : s.workers[w]? =
      some (some ⟨events, perform (S := HandlerSig) (.getConnectionBySer server) next⟩))
    {p : ConnectionPool} (hp : s.pools server = some p) (hcount : 0 ≤ p.count)
    (hroom : threadNum ≤ p.connections.length) {outcome : ℕ → Bool}
    (hopens : ∀ i, outcome i = true) :
    ∃ pools' conn, s.pools.getConnectionBySer server outcome = .ok (pools', some conn) := by
  obtain ⟨p₀, ls, -, hshows, hkept, rfl⟩ := PoolSystem.exists_shows h hrun hp
  have hwell := hkept.valid.wellFormed
  obtain ⟨p', r, hget⟩ := ConnectionPool.exists_getConnection hwell outcome
    (Int.tmod_nonneg _ hcount)
  cases r with
  | some conn =>
    refine ⟨Function.update s.pools server (some p'), conn, ?_⟩
    rw [ConnectionPoolMap.getConnectionBySer, ConnectionPoolMap.selectConnPool, hp]
    simp only [hget]
  | none =>
    exfalso
    have hheld : ∀ i < ls.pool.connections.length, ∃ w, s.Holds w server i := fun i hi =>
      PoolSystem.busy_held h hrun hp (PoolSystem.busyAt_of_getConnection_null hwell hopens hget hi)
    obtain ⟨hnone, -⟩ := (hshows.proper.of_busy hbusy).held_getConnection none
    have hlt := PoolSystem.size_lt_of_held (List.getElem?_eq_some_iff.mp hbusy).1
      (fun conn hholds => by simp [PoolSystem.holds_iff hbusy, hnone] at hholds) hheld
    rw [PoolSystem.length_workers hrun] at hlt
    omega

/-- A worker reads a request for moderation and comes to ask for a connection. -/
theorem singleTable_asks : ∃ events next, Run PoolSystemStep (.start singleTable 1)
    [.run 0, .work 0 ⟨.read .callBackFunc, Func.tisProtoHandler⟩, .work 0 ⟨.read .content, []⟩,
      .work 0 ⟨.read .gameId, (5 : UInt32)⟩, .work 0 ⟨.read .type, (1 : UInt8)⟩,
      .work 0 ⟨.read .userid, (7 : UInt32)⟩]
    { pools := singleTable
      workers :=
        [some ⟨events, perform (S := HandlerSig) (.getConnectionBySer "tis") next⟩] } :=
  ⟨_, _, Run.cons (.run rfl) <| Run.cons (.work rfl rfl) <| Run.cons (.work rfl rfl) <|
    Run.cons (.work rfl rfl) <| Run.cons (.work rfl rfl) <| Run.cons (.work rfl rfl) (Run.nil _)⟩

/-- The worker gets the connection. -/
theorem getConnectionBySer_not_null_singleTable : singleTable.Initialised ∧
    ∃ pools' conn, singleTable.getConnectionBySer "tis" (fun _ => true) = .ok (pools', some conn) :=
  ⟨singleTable_initialised, by
    obtain ⟨events, next, hrun⟩ := singleTable_asks
    exact getConnectionBySer_not_null singleTable_initialised hrun (w := 0) rfl singleTable_tis
      (by decide) (by decide) fun _ => rfl⟩

end ThriftProxy
