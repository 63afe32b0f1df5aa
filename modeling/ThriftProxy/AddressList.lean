import ThriftProxy.PoolLayout

/-!
# Address lists

An address list of the configuration holds addresses written as `host:port`
between semicolons, possibly with other text among them. Whatever is written so is
read back by `string_to_ip_port_pairs`, in the same order.
-/

namespace ThriftProxy

/-- An address that can be written into the configuration. -/
structure Address where
  /-- The host, by name or by number. -/
  host : List UInt8
  /-- The port. -/
  port : ℕ
  /-- The first colon is behind the host. -/
  colon_notMem : colon ∉ host
  /-- The host does not end the segment. -/
  semicolon_notMem : semicolon ∉ host
  /-- A port has sixteen bits. -/
  port_le : port ≤ 65535

/-- The text `host:port`. -/
def Address.text (addr : Address) : List UInt8 := addr.host ++ colon :: Decimal.printNat addr.port

/-- The pair that an address is read as. -/
def Address.pair (addr : Address) : String × ℤ := (textOf addr.host, addr.port)

/-- What is written between semicolons. -/
inductive Segment
  /-- An address. -/
  | address (addr : Address)
  /-- Text without a colon. -/
  | other (text : List UInt8) (colon_notMem : colon ∉ text)

namespace Segment

/-- The text of a segment. -/
def text : Segment → List UInt8
  | address addr => addr.text
  | other text _ => text

/-- The address in a segment. -/
def address? : Segment → Option Address
  | address addr => some addr
  | other _ _ => none

end Segment

/-- Segments joined by semicolons, with or without a semicolon behind the last. -/
def joinSegments (segments : List Segment) (trailing : Bool) : List UInt8 :=
  [semicolon].intercalate (segments.map Segment.text) ++ if trailing then [semicolon] else []

/-! ## Reading a segment -/

/-- Nothing is read from a text without a colon. -/
theorem ipPortPairOf_eq_none {addr : List UInt8} (h : colon ∉ addr) : ipPortPairOf addr = none := by
  rw [ipPortPairOf, List.idxOf?_eq_none_iff.mpr h]

/-- The address string can be taken apart at any semicolon. -/
theorem stringToIpPortPairs_append (front back : List UInt8) :
    stringToIpPortPairs (front ++ semicolon :: back) =
      stringToIpPortPairs front ++ stringToIpPortPairs back := by
  have hempty : ipPortPairOf [] = none := rfl
  unfold stringToIpPortPairs
  rw [Text.filterMap_pieces hempty, Text.filterMap_pieces hempty, Text.filterMap_pieces hempty,
    List.splitOn_append_cons_self, List.filterMap_append]

/-- The first colon of a written address is behind its host. -/
theorem Address.idxOf?_text (addr : Address) : addr.text.idxOf? colon = some addr.host.length := by
  apply List.idxOf?_eq_some_iff.mpr
  refine ⟨by simp [Address.text], by simp [Address.text], ?_⟩
  intro j hj heq
  have hhost : addr.host[j] = colon := by
    rw [← heq]
    exact (List.getElem_append_left hj).symm
  exact addr.colon_notMem (List.mem_of_getElem hhost)

/-- A written address is read as its host and its port. -/
theorem Address.ipPortPairOf_text (addr : Address) : ipPortPairOf addr.text = some addr.pair := by
  have hport : Text.atoi (Decimal.printNat addr.port) = addr.port :=
    Text.atoi_printNat (addr.port_le.trans_lt (by decide))
  simp only [ipPortPairOf, addr.idxOf?_text]
  simp [Address.text, Address.pair, hport]

/-- A written address has no semicolon. -/
theorem Address.semicolon_notMem_text (addr : Address) : semicolon ∉ addr.text := by
  intro h
  rcases List.mem_append.mp h with h | h
  · exact addr.semicolon_notMem h
  · rcases List.mem_cons.mp h with h | h
    · exact absurd h (by decide)
    · exact absurd (Decimal.digit_of_mem_printNat h).2 (by decide)

/-- A segment is read as its address, if it has one. -/
theorem Segment.stringToIpPortPairs_text (segment : Segment) :
    stringToIpPortPairs segment.text = (segment.address?.map Address.pair).toList := by
  have hempty : ipPortPairOf [] = none := rfl
  rw [stringToIpPortPairs, Text.filterMap_pieces hempty]
  cases segment with
  | address addr =>
    have hwhole : addr.text.splitOn semicolon = [addr.text] :=
      List.splitOn_eq_singleton addr.semicolon_notMem_text
    simp [Segment.text, Segment.address?, hwhole, addr.ipPortPairOf_text]
  | other text colon_notMem =>
    apply List.filterMap_eq_nil_iff.mpr
    intro part hpart
    exact ipPortPairOf_eq_none fun hcolon => colon_notMem (Text.mem_of_mem_splitOn hpart hcolon)

/-! ## Reading a list -/

/-- The pairs of a list of segments, the first of which may have none. -/
theorem pairs_cons (segment : Segment) (segments : List Segment) :
    ((segment :: segments).filterMap Segment.address?).map Address.pair =
      (segment.address?.map Address.pair).toList ++
        (segments.filterMap Segment.address?).map Address.pair := by
  cases segment with
  | address addr => rfl
  | other text colon_notMem => rfl

/-- The segments between semicolons are read one by one. -/
theorem stringToIpPortPairs_intercalate (segments : List Segment) :
    stringToIpPortPairs ([semicolon].intercalate (segments.map Segment.text)) =
      (segments.filterMap Segment.address?).map Address.pair := by
  induction segments with
  | nil => rfl
  | cons segment segments ih =>
    rw [pairs_cons, ← segment.stringToIpPortPairs_text]
    cases segments with
    | nil => simp
    | cons next segments =>
      rw [List.map_cons, List.map_cons, List.intercalate_cons_cons, List.append_assoc,
        List.singleton_append, stringToIpPortPairs_append, ← List.map_cons, ih]

/-- **Address list round trip.** For every list of addresses, joined with any
segments that have no colon among them and with or without a semicolon at the end,
`string_to_ip_port_pairs` returns the addresses in their order. -/
theorem stringToIpPortPairs_joinSegments (segments : List Segment) (trailing : Bool) :
    stringToIpPortPairs (joinSegments segments trailing) =
      (segments.filterMap Segment.address?).map Address.pair := by
  cases trailing with
  | false =>
    rw [joinSegments, if_neg Bool.false_ne_true, List.append_nil, stringToIpPortPairs_intercalate]
  | true =>
    rw [joinSegments, if_pos rfl, stringToIpPortPairs_append, stringToIpPortPairs_intercalate]
    exact List.append_nil _

end ThriftProxy
