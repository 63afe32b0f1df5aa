import ThriftProxy.Handler

/-!
# The protocol of the moderation handler

What one run of `tisProtoHandler` does to the connection pools, the back-ends
and the client, for every `ClientInfo` and every combination of outcomes.
-/

namespace ThriftProxy

open Machine Effect Program

/-! ## Milestones -/

/-- The events of a run that other parties see. -/
inductive Milestone
  /-- A pool gave a connection. -/
  | obtained (server : String) (conn : ℕ)
  /-- `check` returned a result or threw. -/
  | checked (conn : ℕ) (res : Option CheckResultStruct)
  /-- `StoreMessage` returned or threw. -/
  | stored (conn : ℕ) (req : ReqCheckResult) (returned : Bool)
  /-- A connection was released. -/
  | released (server : String) (conn : ℕ) (state : Bool)
  /-- A reply was handed to `net_send_cli`. -/
  | replied (bytes : List UInt8)
  deriving DecidableEq

/-- The milestone that an event is. -/
def milestone : Event HandlerSig → Option Milestone
  | ⟨.getConnectionBySer server, conn⟩ => Option.map (Milestone.obtained server) conn
  | ⟨.check conn _, res⟩ => some (.checked conn res)
  | ⟨.storeMessage conn req, returned⟩ => some (.stored conn req returned)
  | ⟨.releaseConnectionBySer server conn state, _⟩ => some (.released server conn state)
  | ⟨.netSendCli _ bytes _, _⟩ => some (.replied bytes)
  | _ => none

namespace Milestone

/-- Whether a reply is sent. -/
def isReply : Milestone → Bool
  | replied _ => true
  | _ => false

/-- Whether `StoreMessage` is attempted. -/
def isStore : Milestone → Bool
  | stored _ _ _ => true
  | _ => false

/-- The pool and the connection obtained from it. -/
def lease : Milestone → Option (String × ℕ)
  | obtained server conn => some (server, conn)
  | _ => none

/-- The pool a connection is released to, the connection and the status. -/
def returned : Milestone → Option ((String × ℕ) × Bool)
  | released server conn state => some ((server, conn), state)
  | _ => none

/-- The connection over which a remote call has returned. -/
def rpcReturned : Milestone → Option (String × ℕ)
  | checked conn (some _) => some ("tis", conn)
  | stored conn _ true => some ("dbser", conn)
  | _ => none

end Milestone

/-- The moderation flag that follows the header of a reply. -/
def sentFlag (bytes : List UInt8) : Option Int32 :=
  if sizeofProtoHeader + 4 ≤ bytes.length then some (readU32 sizeofProtoHeader bytes).toInt32
  else none

/-- What a run of the handler promises to its client, the pools and the back-ends. -/
structure FollowsProtocol (run : List Milestone) : Prop where
  /-- Exactly one reply is sent. -/
  one_reply : run.countP Milestone.isReply = 1
  /-- Every connection obtained is released once, to its own pool, and with
  status true exactly when its remote call has returned. -/
  released_once : run.filterMap Milestone.returned =
    (run.filterMap Milestone.lease).map fun lease =>
      (lease, decide (lease ∈ run.filterMap Milestone.rpcReturned))
  /-- At no point is more than one connection held. -/
  one_held : ∀ before ∈ run.inits,
    (before.filterMap Milestone.returned).length ≤ (before.filterMap Milestone.lease).length ∧
      (before.filterMap Milestone.lease).length ≤
        (before.filterMap Milestone.returned).length + 1
  /-- One record is stored if a storage connection was obtained, and none otherwise. -/
  one_store : run.countP Milestone.isStore ≤ 1 ∧
    (run.countP Milestone.isStore = 1 ↔ ∃ conn, Milestone.obtained "dbser" conn ∈ run)
  /-- The flag stored is the flag that a reply with status 0 carries. -/
  told_flag : ∀ bytes conn req returned, Milestone.replied bytes ∈ run →
    Milestone.stored conn req returned ∈ run → (ProtoHeader.decode bytes).statusCode = 0 →
      ∀ flag ∈ sentFlag bytes, req.flag = flag
  /-- A reply with another status goes with the suspect flag. -/
  suspect_status : ∀ bytes conn req returned, Milestone.replied bytes ∈ run →
    Milestone.stored conn req returned ∈ run → (ProtoHeader.decode bytes).statusCode ≠ 0 →
      req.flag = 2
  /-- So does a moderation result with an error code. -/
  suspect_code : ∀ tisConn res conn req returned, Milestone.checked tisConn (some res) ∈ run →
    Milestone.stored conn req returned ∈ run → res.code ≠ 0 → req.flag = 2

/-! ## Replies -/

/-- The header of a reply to a request. -/
def replyHeader (ci : ClientInfo) (len : ℤ) (statusCode : UInt32) : ProtoHeader :=
  { pkgLen := UInt32.ofInt (sizeofProtoHeader + len), seqNum := ci.cliSeq, cmdId := ci.cliCmd,
    statusCode := statusCode, userId := ci.userid }

/-- The bytes that `SendToClient` sends. -/
def replyBytes (ci : ClientInfo) (buf : List UInt8) (len : ℤ) (statusCode : UInt32) :
    List UInt8 :=
  (replyHeader ci len statusCode).encode ++ buf.take len.toNat

/-- A reply carries the status it was sent with. -/
@[simp] theorem statusCode_replyBytes (ci : ClientInfo) (buf : List UInt8) (len : ℤ)
    (statusCode : UInt32) :
    (ProtoHeader.decode (replyBytes ci buf len statusCode)).statusCode = statusCode := by
  rw [replyBytes, ProtoHeader.decode_encode, replyHeader]

/-- The flag of a reply is the one in front of its body. -/
theorem sentFlag_replyBytes (ci : ClientInfo) (dirtyFlag : Int32) (body : List UInt8) (len : ℤ)
    (statusCode : UInt32) :
    sentFlag (replyBytes ci (verdictBytes dirtyFlag body) len statusCode) =
      if 4 ≤ len then some dirtyFlag else none := by
  have hlength : (replyBytes ci (verdictBytes dirtyFlag body) len statusCode).length =
      sizeofProtoHeader + min len.toNat (4 + body.length) := by
    simp [replyBytes, verdictBytes]
  unfold sentFlag
  rw [hlength]
  by_cases hlen : 4 ≤ len
  · have htake : (verdictBytes dirtyFlag body).take len.toNat =
        bytesU32 dirtyFlag.toUInt32 ++ body.take (len.toNat - 4) := by
      rw [verdictBytes, List.take_append, length_bytesU32, List.take_of_length_le]
      rw [length_bytesU32]
      omega
    rw [if_pos (by omega), if_pos hlen, replyBytes, htake,
      readU32_append_right (by rw [ProtoHeader.length_encode]), ProtoHeader.length_encode,
      Nat.sub_self, readU32_bytesU32]
    simp
  · rw [if_neg (by omega), if_neg hlen]

section

variable (ci : ClientInfo) (behind : List UInt8) (o : Outcomes)

/-- The milestones of a part of a run on a fixed request. -/
def milestones {α : Type} (p : Program HandlerSig α) : List Milestone :=
  p.observed (S := HandlerSig) (o.answer ci behind) milestone

/-- Milestones of a sequence. -/
theorem milestones_bind {α β : Type} (p : Program HandlerSig α) (f : α → Program HandlerSig β) :
    milestones ci behind o (p >>= f) =
      milestones ci behind o p ++
        milestones ci behind o (f (p.result (S := HandlerSig) (o.answer ci behind))) :=
  observed_bind _ _ _ _

/-- Sending a reply is one milestone. -/
theorem milestones_sendToClient (buf : List UInt8) (len : ℤ) (statusCode : UInt32) :
    milestones ci behind o (sendToClient buf len statusCode) =
      [.replied (replyBytes ci buf len statusCode)] := by
  unfold sendToClient
  by_cases hlen : 0 < len
  · simp only [hlen, if_true]
    rfl
  · simp only [hlen, if_false]
    rfl

end

/-! ## The two halves of a run -/

/-- The milestones of the moderation half, with the flag it leaves behind. -/
inductive Moderation (ci : ClientInfo) : Int32 → List Milestone → Prop
  /-- No connection is used and the status is not 0. -/
  | refused {bytes : List UInt8} (status : (ProtoHeader.decode bytes).statusCode ≠ 0) :
      Moderation ci suspectFlag [.replied bytes]
  /-- The moderation service threw. -/
  | failed (conn : ℕ) {bytes : List UInt8}
      (status : (ProtoHeader.decode bytes).statusCode ≠ 0) :
      Moderation ci suspectFlag
        [.obtained "tis" conn, .checked conn none, .released "tis" conn false, .replied bytes]
  /-- The moderation service answered. -/
  | judged (conn : ℕ) (res : CheckResultStruct) {bytes : List UInt8}
      (status : (ProtoHeader.decode bytes).statusCode = 0)
      (flag : ∀ flag ∈ sentFlag bytes, flag = dirtyFlagOf res)
      (told : ci.len.toNat + 4 < 2 ^ 31 → (sentFlag bytes).isSome) :
      Moderation ci (dirtyFlagOf res)
        [.obtained "tis" conn, .checked conn (some res), .released "tis" conn true,
          .replied bytes]

/-- The milestones of the storage half for a given flag. -/
inductive Storage (flag : Int32) : List Milestone → Prop
  /-- The storage pool gave no connection. -/
  | skipped : Storage flag []
  /-- The record was stored, or storing it threw. -/
  | attempted (conn : ℕ) (returned : Bool) {req : ReqCheckResult} (same : req.flag = flag) :
      Storage flag
        [.obtained "dbser" conn, .stored conn req returned, .released "dbser" conn returned]

/-- The two halves together follow the protocol. -/
theorem Moderation.followsProtocol {ci : ClientInfo} {flag : Int32}
    {moderation storage : List Milestone} (hm : Moderation ci flag moderation)
    (hs : Storage flag storage) :
    FollowsProtocol (moderation ++ storage) := by
  constructor
  case one_reply => cases hm <;> cases hs <;> rfl
  case released_once =>
    cases hm <;> cases hs with
    | skipped =>
      simp [Milestone.lease, Milestone.returned, Milestone.rpcReturned, List.filterMap_cons]
    | attempted conn returned same =>
      cases returned <;>
        simp [Milestone.lease, Milestone.returned, Milestone.rpcReturned, List.filterMap_cons]
  case one_held =>
    cases hm <;> cases hs <;>
      simp [Milestone.lease, Milestone.returned, List.filterMap_cons]
  case one_store =>
    cases hm <;> cases hs <;> simp [Milestone.isStore, List.countP_cons]
  case told_flag =>
    intro bytes conn req returned hreply hstore hstatus sent hsent
    cases hs with
    | skipped => cases hm <;> simp at hstore
    | attempted conn returned same =>
      cases hm with
      | refused status =>
        obtain rfl : bytes = _ := by simpa using hreply
        exact absurd hstatus status
      | failed conn status =>
        obtain rfl : bytes = _ := by simpa using hreply
        exact absurd hstatus status
      | judged conn res status flag told =>
        obtain rfl : bytes = _ := by simpa using hreply
        obtain ⟨_, rfl, _⟩ : _ ∧ req = _ ∧ _ := by simpa using hstore
        rw [flag sent hsent, same]
  case suspect_status =>
    intro bytes conn req returned hreply hstore hstatus
    cases hs with
    | skipped => cases hm <;> simp at hstore
    | attempted conn returned same =>
      cases hm with
      | refused status =>
        obtain ⟨_, rfl, _⟩ : _ ∧ req = _ ∧ _ := by simpa using hstore
        exact same
      | failed conn status =>
        obtain ⟨_, rfl, _⟩ : _ ∧ req = _ ∧ _ := by simpa using hstore
        exact same
      | judged conn res status flag told =>
        obtain rfl : bytes = _ := by simpa using hreply
        exact absurd status hstatus
  case suspect_code =>
    intro tisConn res' conn req returned hcheck hstore hcode
    cases hs with
    | skipped => cases hm <;> simp at hstore
    | attempted conn returned same =>
      cases hm with
      | refused status => simp at hcheck
      | failed conn status => simp at hcheck
      | judged conn res status flag told =>
        obtain ⟨_, rfl⟩ : _ ∧ res' = _ := by simpa using hcheck
        obtain ⟨_, rfl, _⟩ : _ ∧ req = _ ∧ _ := by simpa using hstore
        rw [same, dirtyFlagOf, if_pos hcode, suspectFlag]

section

variable (ci : ClientInfo) (behind : List UInt8) (o : Outcomes)

/-- The verdict is sent with status 0 and its flag, unless the body is too long for
game 5. -/
theorem milestones_replyVerdict (gameid dirtyFlag : Int32) (body : List UInt8) :
    ∃ bytes, milestones ci behind o (replyVerdict gameid dirtyFlag (verdictBytes dirtyFlag body)) =
        [.replied bytes] ∧
      (ProtoHeader.decode bytes).statusCode = 0 ∧
      sentFlag bytes =
        if gameid = 5 ∧ 2 ^ 31 ≤ ci.len.toNat + 4 then none else some dirtyFlag := by
  unfold replyVerdict
  by_cases hgame : gameid = 5
  · refine ⟨replyBytes ci (verdictBytes dirtyFlag body) (wrapInt (ci.len.toNat + 4)) 0, ?_, ?_⟩
    · rw [if_pos hgame, milestones_bind, milestones_sendToClient]
      rfl
    · rw [statusCode_replyBytes, sentFlag_replyBytes]
      refine ⟨rfl, ?_⟩
      by_cases hlen : 2 ^ 31 ≤ ci.len.toNat + 4
      · have hbound := ci.len.toNat_lt
        have hwrap : wrapInt (ci.len.toNat + 4) < 4 := by
          rw [wrapInt, Int.bmod_def]
          split
          · omega
          · omega
        rw [if_neg (not_le.mpr hwrap), if_pos ⟨hgame, hlen⟩]
      · rw [wrapInt_eq_self (by omega) (by omega), if_pos (by omega), if_neg fun h => hlen h.2]
  · refine ⟨replyBytes ci (verdictBytes dirtyFlag []) 4 0, ?_, ?_⟩
    · rw [if_neg hgame, milestones_sendToClient, verdictBytes, List.append_nil]
    · rw [statusCode_replyBytes, sentFlag_replyBytes, if_pos (by omega), if_neg fun h => hgame h.1]
      exact ⟨rfl, rfl⟩

/-- After a `check` that returned, the connection is released and the verdict sent. -/
theorem milestones_deliverVerdict (conn : ℕ) (gameid dirtyFlag : Int32) :
    ∃ bytes, milestones ci behind o (deliverVerdict conn gameid dirtyFlag) =
        [.released "tis" conn true, .replied bytes] ∧
      (ProtoHeader.decode bytes).statusCode = 0 ∧
      sentFlag bytes =
        if gameid = 5 ∧ 2 ^ 31 ≤ ci.len.toNat + 4 then none else some dirtyFlag := by
  obtain ⟨bytes, hbytes, hreply⟩ := milestones_replyVerdict ci behind o gameid dirtyFlag
    (Field.get ci behind (.body ci.len.toNat))
  refine ⟨bytes, ?_, hreply⟩
  have hlog := milestones_bind ci behind o (replyVerdict gameid dirtyFlag
    (verdictBytes dirtyFlag (Field.get ci behind (.body ci.len.toNat)))) fun _ => logVerdict
  rw [hbytes] at hlog
  exact congrArg (Milestone.released "tis" conn true :: ·) hlog

variable {o}

/-- The moderation half when the moderation service has answered. -/
theorem moderate_of_answer (content : ByteString) {gameid : Int32} {type : UInt8}
    (userid : Int32) (hskip : ¬ (type = 4 ∧ gameid = 5)) {conn : ℕ} (hconn : o.tisConn = some conn)
    {res : CheckResultStruct} (hres : o.checkResult = some res) :
    (moderate content gameid type userid).result (S := HandlerSig) (o.answer ci behind) =
        dirtyFlagOf res ∧
      ∃ bytes, milestones ci behind o (moderate content gameid type userid) =
          [.obtained "tis" conn, .checked conn (some res), .released "tis" conn true,
            .replied bytes] ∧
        (ProtoHeader.decode bytes).statusCode = 0 ∧
        sentFlag bytes =
          if gameid = 5 ∧ 2 ^ 31 ≤ ci.len.toNat + 4 then none else some (dirtyFlagOf res) := by
  obtain ⟨_, _, dbserConn, stored⟩ := o
  obtain rfl : _ = some conn := hconn
  obtain rfl : _ = some res := hres
  unfold moderate
  rw [if_neg hskip]
  let outcomes : Outcomes := ⟨some conn, some res, dbserConn, stored⟩
  let rest := deliverVerdict conn gameid (dirtyFlagOf res) >>= fun _ =>
    (ret (dirtyFlagOf res) : Program HandlerSig Int32)
  obtain ⟨bytes, hbytes, hreply⟩ :=
    milestones_deliverVerdict ci behind outcomes conn gameid (dirtyFlagOf res)
  have hrest :
      milestones ci behind outcomes rest = [.released "tis" conn true, .replied bytes] := by
    rw [milestones_bind, hbytes]
    rfl
  have hresult : rest.result (S := HandlerSig) (outcomes.answer ci behind) = dirtyFlagOf res :=
    result_bind _ _ _
  refine ⟨hresult, bytes, ?_, hreply⟩
  exact congrArg (fun seen => .obtained "tis" conn :: .checked conn (some res) :: seen) hrest

/-- The moderation half when there is no answer: the message is suspect, and the client
is told another status. -/
theorem moderate_of_no_answer (content : ByteString) {gameid : Int32} {type : UInt8}
    (userid : Int32)
    (h : (type = 4 ∧ gameid = 5) ∨ o.tisConn = none ∨ o.checkResult = none) :
    (moderate content gameid type userid).result (S := HandlerSig) (o.answer ci behind) =
        suspectFlag ∧
      ∃ bytes, (ProtoHeader.decode bytes).statusCode ≠ 0 ∧
        (milestones ci behind o (moderate content gameid type userid) = [.replied bytes] ∨
          ∃ conn, milestones ci behind o (moderate content gameid type userid) =
            [.obtained "tis" conn, .checked conn none, .released "tis" conn false,
              .replied bytes]) := by
  have hstatus : ∀ status : UInt32, status ≠ 0 →
      (ProtoHeader.decode (replyBytes ci [] 0 status)).statusCode ≠ 0 := by
    intro status h
    rwa [statusCode_replyBytes]
  unfold moderate
  by_cases hskip : type = 4 ∧ gameid = 5
  · rw [if_pos hskip]
    exact ⟨rfl, _, hstatus 1002 (by decide), .inl rfl⟩
  · rw [if_neg hskip]
    obtain ⟨tisConn, checkResult, dbserConn, stored⟩ := o
    cases tisConn with
    | none => exact ⟨rfl, _, hstatus 1001 (by decide), .inl rfl⟩
    | some conn =>
      cases checkResult with
      | none => exact ⟨rfl, _, hstatus 1001 (by decide), .inr ⟨conn, rfl⟩⟩
      | some res => exact absurd h (by simp [hskip])

variable (o)

/-- The moderation half runs in one of three ways. -/
theorem moderation_moderate (content : ByteString) (gameid : Int32) (type : UInt8)
    (userid : Int32) :
    Moderation ci
      ((moderate content gameid type userid).result (S := HandlerSig) (o.answer ci behind))
      (milestones ci behind o (moderate content gameid type userid)) := by
  by_cases h : (type = 4 ∧ gameid = 5) ∨ o.tisConn = none ∨ o.checkResult = none
  · obtain ⟨hresult, bytes, hstatus, hbytes⟩ := moderate_of_no_answer ci behind content userid h
    rw [hresult]
    rcases hbytes with hbytes | ⟨conn, hbytes⟩
    · rw [hbytes]
      exact Moderation.refused hstatus
    · rw [hbytes]
      exact Moderation.failed conn hstatus
  · rw [not_or, not_or] at h
    obtain ⟨hskip, hconn, hres⟩ := h
    obtain ⟨conn, hconn⟩ := Option.ne_none_iff_exists'.mp hconn
    obtain ⟨res, hres⟩ := Option.ne_none_iff_exists'.mp hres
    obtain ⟨hresult, bytes, hbytes, hstatus, hflag⟩ :=
      moderate_of_answer ci behind content userid hskip hconn hres
    rw [hresult, hbytes]
    refine Moderation.judged conn res hstatus ?_ ?_
    · intro flag hsent
      rw [hflag] at hsent
      split at hsent
      · cases hsent
      · exact (Option.some.inj hsent).symm
    · intro hlen
      rw [hflag, if_neg fun h => absurd h.2 (not_le.mpr hlen)]
      rfl

/-- The storage half runs in one of two ways. -/
theorem storage_storeResult (content : ByteString) (gameid userid dirtyFlag : Int32) :
    Storage dirtyFlag (milestones ci behind o (storeResult content gameid userid dirtyFlag)) := by
  obtain ⟨tisConn, checkResult, dbserConn, stored⟩ := o
  cases dbserConn with
  | none => exact Storage.skipped
  | some conn => exact Storage.attempted conn stored rfl

/-- A run of the handler is a moderation half followed by a storage half. -/
theorem tisRun_halves : ∃ flag moderation storage, Moderation ci flag moderation ∧
    Storage flag storage ∧ (tisRun ci behind o).filterMap milestone = moderation ++ storage := by
  let content := Field.get ci behind .content
  let gameId := Field.get ci behind .gameId
  let type := Field.get ci behind .type
  let userid := Field.get ci behind .userid
  refine ⟨_, _, _, moderation_moderate ci behind o content gameId.toInt32 type userid.toInt32,
    storage_storeResult ci behind o content gameId.toInt32 userid.toInt32 _, ?_⟩
  exact milestones_bind ci behind o (moderate content gameId.toInt32 type userid.toInt32)
    (storeResult content gameId.toInt32 userid.toInt32)

end

/-- One run of `tisProtoHandler` follows the protocol, and every reply with
status 0 to a package that a client can send carries a flag. -/
theorem tisRun_followsProtocol (ci : ClientInfo) (behind : List UInt8) (o : Outcomes) :
    FollowsProtocol ((tisRun ci behind o).filterMap milestone) ∧
      (ci.len.toNat + 4 < 2 ^ 31 → ∀ bytes,
        Milestone.replied bytes ∈ (tisRun ci behind o).filterMap milestone →
          (ProtoHeader.decode bytes).statusCode = 0 → (sentFlag bytes).isSome) := by
  obtain ⟨flag, moderation, storage, hm, hs, heq⟩ := tisRun_halves ci behind o
  rw [heq]
  refine ⟨hm.followsProtocol hs, ?_⟩
  intro hlen bytes hreply hstatus
  have hmem : Milestone.replied bytes ∈ moderation := by
    rcases List.mem_append.mp hreply with h | h
    · exact h
    · cases hs <;> simp at h
  cases hm with
  | refused status =>
    obtain rfl : bytes = _ := by simpa using hmem
    exact absurd hstatus status
  | failed conn status =>
    obtain rfl : bytes = _ := by simpa using hmem
    exact absurd hstatus status
  | judged conn res status same told =>
    obtain rfl : bytes = _ := by simpa using hmem
    exact told hlen

end ThriftProxy
