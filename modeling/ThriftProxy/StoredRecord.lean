import ThriftProxy.Content

/-!
# The stored record

The client of `test.py` packs the fields of a moderation request into a package,
and the handler unpacks them into a record for the storage service and a request
to the moderation service. Every field makes the round trip except the name,
which is read as a C string although its field need not contain a NUL.
-/

namespace ThriftProxy

open Machine Effect Program

/-- Whatever lies behind the buffer and whatever the back-ends do, a storage
connection that is obtained is sent one record, with the fields of the request,
and a moderation request has the same game and user. -/
def StoresRequest (ci : ClientInfo) (userId : UInt32) (d : DataBodyHuaXian) : Prop :=
  ∀ behind (o : Outcomes), o.dbserConn ≠ none →
    ∃ req, storedRecords ci behind o = [req] ∧ req.nick = d.nick ∧
      req.gameid = d.gameId.toInt32 ∧ req.serverid = d.homeId.toInt32 ∧
      req.userid = userId.toInt32 ∧ req.rolegrade = d.roleGrade.toInt32 ∧
      req.vipgrade = d.vipGrade.toInt32 ∧ req.type = d.type.toInt8 ∧
      ∀ tis ∈ checkRequests ci behind o, tis.gameid = req.gameid ∧
        Decimal.parseInt tis.userid = req.userid.toInt

section

variable {ci : ClientInfo} {fd : Int32} {h : ProtoHeader} {d : DataBodyHuaXian}
  {rest behind : List UInt8}

/-- The buffer of a moderation request starts with its fixed part. -/
theorem ClientInfo.Carries.bytes_eq (hci : ci.Carries fd h (d.encode ++ rest)) :
    ∃ back, ci.buf.bytes = d.encode ++ back := by
  have hprefix : (d.encode ++ rest).take bufSize =
      d.encode ++ rest.take (bufSize - sizeofDataBodyHuaXian) := by
    rw [List.take_append, List.take_of_length_le, DataBodyHuaXian.length_encode]
    rw [DataBodyHuaXian.length_encode]
    decide
  rw [hci.buf, Buffer.bytes_zeroFilled, hprefix, List.append_assoc]
  exact ⟨_, rfl⟩

/-- The game of a package is read as it was packed. -/
theorem gameid_carries (hci : ci.Carries fd h (d.encode ++ rest)) :
    ci.gameid = d.gameId.toInt32 := by
  obtain ⟨back, hbytes⟩ := hci.bytes_eq
  rw [ClientInfo.gameid, hbytes, DataBodyHuaXian.gameId_encode]

/-- The record stored for a package has the fields of the request and the name
that is read from its field on. -/
theorem recordOf_carries (hci : ci.Carries fd h (d.encode ++ rest)) (flag : Int32) :
    recordOf ci behind flag = storeRequest (ci.text behind) d.gameId.toInt32 h.userId.toInt32 flag
      d.type d.homeId d.roleGrade d.vipGrade (ci.nick behind) := by
  obtain ⟨back, hbytes⟩ := hci.bytes_eq
  rw [recordOf, gameid_carries hci, ClientInfo.type, hci.userid, hbytes]
  simp

/-- A name that is shorter than its field is read as it was packed. -/
theorem nick_carries (hci : ci.Carries fd h (d.encode ++ rest)) (hlen : d.nick.length ≤ 15)
    (hzero : 0 ∉ d.nick) : ci.nick behind = d.nick := by
  obtain ⟨back, hbytes⟩ := hci.bytes_eq
  rw [ClientInfo.nick, hbytes, List.append_assoc, DataBodyHuaXian.drop_encode,
    cstr_nickField hlen hzero]

/-- A name that fills its field is read with the type byte and what follows it,
up to a NUL. -/
theorem nick_carries_of_full (hci : ci.Carries fd h (d.encode ++ rest)) (hlen : d.nick.length = 16)
    (hzero : 0 ∉ d.nick) : ∃ back, ci.nick behind = d.nick ++ cstr (d.type :: back) := by
  obtain ⟨back, hbytes⟩ := hci.bytes_eq
  rw [ClientInfo.nick, hbytes, List.append_assoc, DataBodyHuaXian.drop_encode,
    cstr_nickField_of_full hlen hzero]
  exact ⟨_, rfl⟩

/-- A name is read as it was packed exactly when it leaves room for a NUL or the
type byte behind it is one. -/
theorem nick_carries_iff (hci : ci.Carries fd h (d.encode ++ rest)) (hlen : d.nick.length ≤ 16)
    (hzero : 0 ∉ d.nick) : ci.nick behind = d.nick ↔ d.nick.length ≤ 15 ∨ d.type = 0 := by
  constructor
  · intro hnick
    by_contra hnot
    push Not at hnot
    obtain ⟨back, hread⟩ := nick_carries_of_full hci (by omega) hzero
    rw [hread] at hnick
    have hempty : cstr (d.type :: back) = [] := by simpa using hnick
    simp [cstr, hnot.2] at hempty
  · intro hcond
    by_cases hshort : d.nick.length ≤ 15
    · exact nick_carries hci hshort hzero
    · have htype : d.type = 0 := hcond.resolve_left hshort
      obtain ⟨back, hread⟩ := nick_carries_of_full hci (by omega) hzero
      rw [hread, htype]
      simp [cstr]

/-- A request is stored with its fields exactly when its name is read as it was packed. -/
theorem storesRequest_iff_nick (hci : ci.Carries fd h (d.encode ++ rest)) :
    StoresRequest ci h.userId d ↔ ∀ behind, ci.nick behind = d.nick := by
  constructor
  · intro hstores behind
    have hconn : (some 0 : Option ℕ) ≠ none := by simp
    obtain ⟨req, hrecords, hnick, -⟩ := hstores behind ⟨none, none, some 0, true⟩ hconn
    obtain ⟨flag, heq⟩ := storedRecords_eq ci behind ⟨none, none, some 0, true⟩
    rw [heq, if_neg hconn, recordOf_carries hci] at hrecords
    rw [← hnick, ← List.head_eq_of_cons_eq hrecords, storeRequest]
  · intro hnick behind o hconn
    obtain ⟨flag, heq⟩ := storedRecords_eq ci behind o
    refine ⟨_, heq.trans (if_neg hconn), ?_⟩
    rw [recordOf_carries hci, checkRequests_eq]
    refine ⟨hnick behind, rfl, rfl, rfl, rfl, rfl, rfl, ?_⟩
    intro tis htis
    split at htis
    · simp at htis
    · rw [List.mem_singleton.mp htis]
      refine ⟨gameid_carries hci, ?_⟩
      rw [tisRequest, Decimal.parseInt_printInt, hci.userid]
      rfl

end

/-- **The stored record.** Packing a request, receiving it and handling it stores
its fields exactly when the name leaves room for a NUL in its field or the type
byte behind the name is 0. -/
theorem storesRequest_pack_iff {st : Store} {fd : Int32} {userId : UInt32} {d : DataBodyHuaXian}
    {contentLen : UInt32} {content : List UInt8} {malloc : Option ℕ} {procTime : Timeval} {now : ℤ}
    {item : ℕ} (hlen : d.nick.length ≤ 16) (hzero : 0 ∉ d.nick)
    (htask : (procPkgCli st fd (pack userId d contentLen content) malloc procTime now).task =
      some item) :
    StoresRequest ((procPkgCli st fd (pack userId d contentLen content) malloc procTime
      now).store.client item) userId d ↔ d.nick.length ≤ 15 ∨ d.type = 0 := by
  have hcarries := carries_procPkgCli htask
  have hiff := storesRequest_iff_nick hcarries
  constructor
  · intro hstores
    exact (nick_carries_iff hcarries hlen hzero).mp (hiff.mp hstores [])
  · intro hcond
    exact hiff.mpr fun behind => (nick_carries_iff hcarries hlen hzero).mpr hcond

/-- A moderation request whose name fills its field. -/
def fullNickBody : DataBodyHuaXian := { requestBody with nick := List.replicate 16 97 }

/-- A name that fills its field is stored with the type byte behind it. -/
theorem not_storesRequest_fullNick :
    (receive (pack 100 fullNickBody 3 [97, 98, 99, 0])).task = some 4104 ∧
    ¬ StoresRequest ((receive (pack 100 fullNickBody 3 [97, 98, 99, 0])).store.client 4104) 100
      fullNickBody := by
  have htask : (receive (pack 100 fullNickBody 3 [97, 98, 99, 0])).task = some 4104 := by decide
  have hcarries := carries_procPkgCli htask
  refine ⟨htask, fun hstores => ?_⟩
  have hnick := (storesRequest_iff_nick hcarries).mp hstores []
  exact absurd ((nick_carries_iff hcarries (by decide) (by decide)).mp hnick) (by decide)

/-- The exact condition at a request whose name is short. -/
theorem storesRequest_pack_iff_role :
    StoresRequest ((receive (pack 100 requestBody 3 [97, 98, 99, 0])).store.client 4104) 100
      requestBody ↔ requestBody.nick.length ≤ 15 ∨ requestBody.type = 0 :=
  storesRequest_pack_iff (by decide) (by decide) (by decide)

end ThriftProxy
