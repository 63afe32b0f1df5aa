import ThriftProxy.Handler
import ThriftProxy.Lib.Typestate

/-!
# Leases of connections

A handler holds at most one connection at a time. It makes its remote calls over
the connection that it holds, to the service that the connection leads to, and
gives back what it has got before it gets another one and before it ends.
-/

namespace ThriftProxy

open Effect Program

/-- A service and the index of a connection to it. -/
abbrev Lease := String × ℕ

/-- What an operation of a handler does to the lease that it holds. -/
def leasing : Discipline HandlerSig (Option Lease)
  | held, ⟨.getConnectionBySer server, conn⟩ =>
    if held = none then some (conn.map fun i => (server, i)) else none
  | held, ⟨.releaseConnectionBySer server conn _, _⟩ =>
    if held = some (server, conn) then some none else none
  | held, ⟨.check conn _, _⟩ => if held = some ("tis", conn) then some held else none
  | held, ⟨.storeMessage conn _, _⟩ => if held = some ("dbser", conn) then some held else none
  | held, ⟨.read _, _⟩ => some held
  | held, ⟨.write _ _ _, _⟩ => some held
  | held, ⟨.netSendCli _ _ _, _⟩ => some held

/-- Whether an operation has to do with connections. -/
def HandlerOp.usesPool : HandlerOp → Bool
  | getConnectionBySer _ => true
  | releaseConnectionBySer _ _ _ => true
  | check _ _ => true
  | storeMessage _ _ => true
  | _ => false

/-- Nothing is held at the end. -/
def Returned {α : Type} (_ : α) (held : Option Lease) : Prop := held = none

section

variable {α : Type} {final : α → Option Lease → Prop} {held : Option Lease} {server : String}
  {conn : ℕ}

/-- Other operations leave the lease alone. -/
theorem leasing_of_not_usesPool (held : Option Lease) (e : Event HandlerSig)
    (h : e.op.usesPool = false) : leasing held e = some held := by
  obtain ⟨op, answer⟩ := e
  cases op with
  | read f => rfl
  | write dst offset count => rfl
  | netSendCli fd buf len => rfl
  | getConnectionBySer server => cases h
  | releaseConnectionBySer server conn state => cases h
  | check conn req => cases h
  | storeMessage conn req => cases h

/-- A part of a handler without pool operations goes on with the same lease. -/
theorem Program.Avoids.keeps_lease {p : Program HandlerSig α}
    (hp : p.Avoids (S := HandlerSig) HandlerOp.usesPool) :
    p.Keeps leasing (fun _ held' => held' = held) held :=
  hp.keeps fun e he => leasing_of_not_usesPool held e he

/-- A read goes on with the same lease. -/
theorem keeps_read {f : Field} {next : f.Value → Program HandlerSig α}
    (h : ∀ v, (next v).Keeps leasing final held) :
    (perform (S := HandlerSig) (.read f) next).Keeps leasing final held :=
  fun v => ⟨held, rfl, h v⟩

/-- A handler that holds nothing gets a connection, or NULL. -/
theorem keeps_getConnectionBySer {next : Option ℕ → Program HandlerSig α}
    (hnone : (next none).Keeps leasing final none)
    (hsome : ∀ conn, (next (some conn)).Keeps leasing final (some (server, conn))) :
    (perform (S := HandlerSig) (.getConnectionBySer server) next).Keeps leasing final none := by
  rintro (_ | conn)
  · exact ⟨none, rfl, hnone⟩
  · exact ⟨some (server, conn), rfl, hsome conn⟩

/-- A handler releases what it holds. -/
theorem keeps_releaseConnectionBySer {state : Bool} {next : Unit → Program HandlerSig α}
    (h : (next ()).Keeps leasing final none) :
    (perform (S := HandlerSig) (.releaseConnectionBySer server conn state) next).Keeps leasing final
      (some (server, conn)) :=
  fun _ => ⟨none, if_pos rfl, h⟩

end

/-! ## The handlers -/

/-- `SendToClient` has nothing to do with connections. -/
theorem sendToClient_avoids_usesPool (buf : List UInt8) (len : ℤ) (statusCode : UInt32) :
    (sendToClient buf len statusCode).Avoids (S := HandlerSig) HandlerOp.usesPool := by
  unfold sendToClient
  by_cases hlen : 0 < len <;> simp [hlen, act, HandlerOp.usesPool]

/-- A refusal ends as it began. -/
theorem refusal_keeps (statusCode : UInt32) :
    (sendToClient [] 0 statusCode >>= fun _ => (ret suspectFlag : Program HandlerSig Int32)).Keeps
      leasing Returned none :=
  (Program.Avoids.keeps_lease (sendToClient_avoids_usesPool _ _ _)).bind fun _ _ hheld => hheld

/-- Delivering a verdict gives the connection back. -/
theorem deliverVerdict_keeps (conn : ℕ) (gameid dirtyFlag : Int32) :
    (deliverVerdict conn gameid dirtyFlag).Keeps leasing Returned (some ("tis", conn)) := by
  have hreply : ∀ buf, (replyVerdict gameid dirtyFlag buf).Avoids (S := HandlerSig)
      HandlerOp.usesPool := by
    intro buf
    unfold replyVerdict
    by_cases hgame : gameid = 5
    · rw [if_pos hgame, readField_bind, avoids_perform]
      exact ⟨rfl, fun len => sendToClient_avoids_usesPool _ _ _⟩
    · rw [if_neg hgame]
      exact sendToClient_avoids_usesPool _ _ _
  have hlog : logVerdict.Avoids (S := HandlerSig) HandlerOp.usesPool := by
    simp [logVerdict, HandlerOp.usesPool]
  unfold deliverVerdict
  simp only [act_bind, readField_bind]
  refine fun _ => ⟨_, rfl, keeps_read fun len => keeps_read fun body => ?_⟩
  refine fun _ => ⟨_, rfl, keeps_releaseConnectionBySer ?_⟩
  exact Program.Avoids.keeps_lease ((hreply _).bind fun _ => hlog)

/-- The moderation half holds nothing at its end. -/
theorem moderate_keeps (content : ByteString) (gameid : Int32) (type : UInt8) (userid : Int32) :
    (moderate content gameid type userid).Keeps leasing Returned none := by
  unfold moderate
  by_cases hskip : type = 4 ∧ gameid = 5
  · rw [if_pos hskip]
    exact refusal_keeps 1002
  · rw [if_neg hskip, getConnectionBySer_bind]
    refine keeps_getConnectionBySer (refusal_keeps 1001) fun conn => ?_
    simp only [check_bind]
    rintro (_ | res)
    · exact ⟨_, if_pos rfl, keeps_releaseConnectionBySer (refusal_keeps 1001)⟩
    · refine ⟨_, if_pos rfl, ?_⟩
      exact (deliverVerdict_keeps conn gameid _).bind fun _ _ hheld => hheld

/-- The storage half holds nothing at its end. -/
theorem storeResult_keeps (content : ByteString) (gameid userid dirtyFlag : Int32) :
    (storeResult content gameid userid dirtyFlag).Keeps leasing Returned none := by
  unfold storeResult
  rw [getConnectionBySer_bind]
  refine keeps_getConnectionBySer rfl fun conn => ?_
  simp only [readField_bind]
  refine keeps_read fun type => keeps_read fun homeId => keeps_read fun roleGrade =>
    keeps_read fun vipGrade => keeps_read fun nick => ?_
  exact fun stored => ⟨_, if_pos rfl, keeps_releaseConnectionBySer rfl⟩

/-- Whatever the other parties answer, a worker that runs a handler holds at most one
connection, makes its calls over it and gives it back before it ends. -/
theorem runClientInfo_keeps : runClientInfo.Keeps leasing Returned none := by
  unfold runClientInfo
  rw [readField_bind]
  refine keeps_read fun func => ?_
  cases func with
  | tisProtoHandler =>
    show tisProtoHandler.Keeps leasing Returned none
    unfold tisProtoHandler
    simp only [readField_bind]
    refine keeps_read fun content => keeps_read fun gameId => keeps_read fun type =>
      keeps_read fun userid => ?_
    refine (moderate_keeps _ _ _ _).bind ?_
    rintro dirtyFlag _ rfl
    exact storeResult_keeps _ _ _ _
  | defaultProtoHandler =>
    exact Program.Avoids.keeps_lease (sendToClient_avoids_usesPool _ _ _)

end ThriftProxy
