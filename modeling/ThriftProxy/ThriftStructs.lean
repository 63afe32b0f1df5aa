import ThriftProxy.BinaryProtocol
import Mathlib.Data.List.Induction
import Mathlib.Data.List.Nodup

/-!
# The generated structs

The readers and writers that are generated for the structs of the services. A reader
takes the fields in any order, skips what it does not know, and keeps the last value
that each field has.
-/

namespace ThriftProxy

open Wire Wire.Reader

/-! ## Fields and structs -/

/-- A field of a generated struct: a `case` of its reader, and what its writer writes. -/
structure FieldSpec (σ : Type) where
  /-- The type of its values. -/
  Value : Type
  name : ByteString
  type : TType
  id : Int16
  /-- Whether the writer writes the field. -/
  present : σ → Bool
  get : σ → Value
  /-- What the reader makes of the struct, `__isset` included. -/
  set : Value → σ → σ
  /-- A struct inside the struct is read over its old value. -/
  read : Value → Reader TException Value
  write : Value → Option ByteString

section

variable (P : TProtocol) {σ τ : Type}

/-- The `switch` of a generated reader. -/
def readCase (fields : List (FieldSpec σ)) (s : σ) (ftype : TType) (fid : Int16) :
    Reader TException σ :=
  match fields.find? fun f => f.id = fid with
  | some f =>
    if ftype = f.type then (fun v => f.set v s) <$> f.read (f.get s)
    else (fun _ => s) <$> P.skip ftype
  | none => (fun _ => s) <$> P.skip ftype

/-- One round of the loop of a generated reader. -/
def readRound (fields : List (FieldSpec σ)) (s : σ) : Reader TException (σ ⊕ σ) := do
  let (ftype, fid) ← P.readFieldBegin
  if ftype = .stop then return .inr s
  else return .inl (← readCase P fields s ftype fid)

/-- A generated reader. -/
def readStruct (fields : List (FieldSpec σ)) (s : σ) : Reader TException σ :=
  loop .other (readRound P fields) s

/-- A generated writer. -/
def writeStruct (fields : List (FieldSpec σ)) (s : σ) : Option ByteString :=
  match fields with
  | [] => P.writeFieldStop
  | f :: fields =>
    if f.present s then do
      let header ← P.writeFieldBegin f.name f.type f.id
      let body ← f.write (f.get s)
      let rest ← writeStruct fields s
      return header ++ (body ++ rest)
    else writeStruct fields s

/-- A field of type `T_I32`. -/
def i32Field (name : String) (id : Int16) (get : σ → Int32) (set : Int32 → σ → σ) :
    FieldSpec σ where
  Value := Int32
  name := literal name
  type := .i32
  id := id
  present _ := true
  get := get
  set := set
  read _ := P.readI32
  write := P.writeI32

/-- A field of type `T_BYTE`. -/
def byteField (name : String) (id : Int16) (get : σ → Int8) (set : Int8 → σ → σ) :
    FieldSpec σ where
  Value := Int8
  name := literal name
  type := .byte
  id := id
  present _ := true
  get := get
  set := set
  read _ := P.readByte
  write := P.writeByte

/-- A field of type `T_STRING`. -/
def stringField (name : String) (id : Int16) (get : σ → ByteString) (set : ByteString → σ → σ) :
    FieldSpec σ where
  Value := ByteString
  name := literal name
  type := .string
  id := id
  present _ := true
  get := get
  set := set
  read _ := P.readString
  write := P.writeString

/-- A field of type `T_STRUCT`. -/
def structField (name : String) (id : Int16) (fields : List (FieldSpec τ)) (get : σ → τ)
    (set : τ → σ → σ) : FieldSpec σ where
  Value := τ
  name := literal name
  type := .struct
  id := id
  present _ := true
  get := get
  set := set
  read := readStruct P fields
  write := writeStruct P fields

end

/-! ## What the readers and writers of a struct rely on -/

/-- The code of a field reads what it writes. -/
structure FieldSpec.Lawful (P : TProtocol) {σ : Type} (depth : ℕ) (f : FieldSpec σ) : Prop where
  type_ne_stop : f.type ≠ .stop
  reads : ∀ {old value bytes}, f.write value = some bytes → (f.read old).Reads bytes value
  forward : ∀ old, (f.read old).Forward
  skippable : ∀ {value bytes}, f.write value = some bytes →
    Skippable P.toTWriter depth f.type bytes

/-- The fields of a struct have numbers of their own. -/
structure Schema (P : TProtocol) {σ : Type} (depth : ℕ) (fields : List (FieldSpec σ)) : Prop where
  ids_nodup : (fields.map FieldSpec.id).Nodup
  lawful : ∀ f ∈ fields, f.Lawful P depth

/-- The fields of a struct are independent of each other, and all there is to it. -/
structure Members {σ : Type} (fields : List (FieldSpec σ)) : Prop where
  get_set : ∀ f ∈ fields, ∀ v s, f.get (f.set v s) = v
  get_set_ne : ∀ f ∈ fields, ∀ g ∈ fields, f.id ≠ g.id → ∀ v s, g.get (f.set v s) = g.get s
  ext : ∀ s t, (∀ f ∈ fields, f.get s = f.get t) → s = t

/-- Bytes that hold fields of a struct, each with the value that it has in some struct,
and between them what the reader does not know. -/
inductive Encodes (P : TProtocol) {σ : Type} (fields : List (FieldSpec σ)) :
    List (FieldSpec σ × σ) → ByteString → Prop
  | stop {bytes : ByteString} (h : P.writeFieldStop = some bytes) : Encodes P fields [] bytes
  | field {f : FieldSpec σ} {t : σ} {name header body bytes : ByteString}
      {items : List (FieldSpec σ × σ)} (mem : f ∈ fields)
      (hheader : P.writeFieldBegin name f.type f.id = some header)
      (hbody : f.write (f.get t) = some body) (rest : Encodes P fields items bytes) :
      Encodes P fields ((f, t) :: items) (header ++ body ++ bytes)
  | unknown {name : ByteString} {type : TType} {id : Int16} {header body bytes : ByteString}
      {items : List (FieldSpec σ × σ)} (hstop : type ≠ .stop)
      (hno : ∀ f ∈ fields, f.id = id → f.type ≠ type)
      (hheader : P.writeFieldBegin name type id = some header)
      (hskip : (P.skip type).Reads body ()) (rest : Encodes P fields items bytes) :
      Encodes P fields items (header ++ body ++ bytes)

/-- The last struct that a field takes its value from. -/
def lastOf {σ : Type} (f : FieldSpec σ) (items : List (FieldSpec σ × σ)) : Option σ :=
  ((items.filter fun item => item.1.id = f.id).getLast?).map Prod.snd

/-! ## What a generated reader makes of its input -/

section

variable {P : TProtocol} {σ τ : Type} {depth : ℕ} {fields : List (FieldSpec σ)}

/-- The `case` of a field. -/
theorem Schema.find_eq (h : Schema P depth fields) {f : FieldSpec σ} (hf : f ∈ fields) :
    fields.find? (fun g => g.id = f.id) = some f := by
  have hnodup := h.ids_nodup
  clear h
  induction fields with
  | nil => cases hf
  | cons g fields ih =>
    rw [List.map_cons, List.nodup_cons] at hnodup
    rcases List.mem_cons.mp hf with rfl | hf
    · exact List.find?_cons_of_pos (by simp)
    · have hne : g.id ≠ f.id := fun heq => hnodup.1 (List.mem_map.mpr ⟨f, hf, heq.symm⟩)
      rw [List.find?_cons_of_neg (by simpa using hne)]
      exact ih hf hnodup.2

/-- The `switch` goes forward. -/
theorem Schema.forward_readCase (h : Schema P depth fields) (s : σ) (ftype : TType)
    (fid : Int16) : (readCase P fields s ftype fid).Forward := by
  unfold readCase
  cases hfind : fields.find? fun f => f.id = fid with
  | none => exact (P.forward_skip ftype).map _
  | some f =>
    dsimp only
    split
    · exact ((h.lawful f (List.mem_of_find?_eq_some hfind)).forward _).map _
    · exact (P.forward_skip ftype).map _

/-- A round takes the header of a field at least. -/
theorem Schema.consumes_readRound (h : Schema P depth fields) (s : σ) :
    (readRound P fields s).Consumes := by
  refine P.consumes_fieldBegin.bind ?_
  rintro ⟨ftype, fid⟩
  dsimp only
  split
  · exact forward_pure _
  · exact (h.forward_readCase s ftype fid).bind fun _ => forward_pure _

/-- A round that is not the last one. -/
theorem reads_round {name header body : ByteString} {type : TType} {id : Int16} {s s' : σ}
    (hstop : type ≠ .stop) (hheader : P.writeFieldBegin name type id = some header)
    (hcase : (readCase P fields s type id).Reads body s') :
    (readRound P fields s).Reads (header ++ body) (.inl s') := by
  refine (P.reads_fieldBegin hstop hheader).bind ?_
  dsimp only
  rw [if_neg hstop]
  exact hcase.bind_pure _

/-- A field with its own type is read. -/
theorem Schema.reads_field (h : Schema P depth fields) {f : FieldSpec σ} (hf : f ∈ fields)
    {name header body : ByteString} {s t : σ}
    (hheader : P.writeFieldBegin name f.type f.id = some header)
    (hbody : f.write (f.get t) = some body) :
    (readRound P fields s).Reads (header ++ body) (.inl (f.set (f.get t) s)) := by
  have hlawful := h.lawful f hf
  refine reads_round hlawful.type_ne_stop hheader ?_
  unfold readCase
  rw [h.find_eq hf]
  dsimp only
  rw [if_pos rfl]
  exact (hlawful.reads hbody).map _

/-- Any other field is skipped. -/
theorem reads_unknown {name header body : ByteString} {type : TType} {id : Int16} {s : σ}
    (hstop : type ≠ .stop) (hno : ∀ f ∈ fields, f.id = id → f.type ≠ type)
    (hheader : P.writeFieldBegin name type id = some header)
    (hskip : (P.skip type).Reads body ()) :
    (readRound P fields s).Reads (header ++ body) (.inl s) := by
  refine reads_round hstop hheader ?_
  unfold readCase
  cases hfind : fields.find? fun f => f.id = id with
  | none => exact hskip.map _
  | some f =>
    have hid : f.id = id := by simpa using List.find?_some hfind
    dsimp only
    rw [if_neg (Ne.symm (hno f (List.mem_of_find?_eq_some hfind) hid))]
    exact hskip.map _

/-- The end of a struct. -/
theorem reads_stop {bytes : ByteString} {s : σ} (h : P.writeFieldStop = some bytes) :
    (readRound P fields s).Reads bytes (.inr s) := by
  rw [← List.append_nil bytes]
  exact (P.reads_fieldStop h).bind (reads_pure _)

/-- A generated reader sets the fields in the order in which they come. -/
theorem Schema.reads_encodes (h : Schema P depth fields) {items : List (FieldSpec σ × σ)}
    {bytes : ByteString} (hbytes : Encodes P fields items bytes) (s : σ) :
    (readStruct P fields s).Reads bytes
      (items.foldl (fun s item => item.1.set (item.1.get item.2) s) s) := by
  induction hbytes generalizing s with
  | stop hstop => exact reads_loop_exit h.consumes_readRound (reads_stop hstop)
  | field mem hheader hbody rest ih =>
    exact reads_loop_next h.consumes_readRound (h.reads_field mem hheader hbody) (ih _)
  | unknown hstop hno hheader hskip rest ih =>
    exact reads_loop_next h.consumes_readRound (reads_unknown hstop hno hheader hskip) (ih s)

/-- A field has its last value, or the one from before. -/
theorem Members.get_foldl (h : Members fields) {f : FieldSpec σ} (hf : f ∈ fields)
    (hnodup : (fields.map FieldSpec.id).Nodup) (items : List (FieldSpec σ × σ))
    (hitems : ∀ item ∈ items, item.1 ∈ fields) (s : σ) :
    f.get (items.foldl (fun s item => item.1.set (item.1.get item.2) s) s) =
      f.get ((lastOf f items).getD s) := by
  induction items using List.reverseRecOn with
  | nil => rfl
  | append_singleton items item ih =>
    obtain ⟨g, t⟩ := item
    have hg : g ∈ fields := hitems (g, t) (by simp)
    rw [List.foldl_append, List.foldl_cons, List.foldl_nil]
    by_cases hid : g.id = f.id
    · obtain rfl := List.inj_on_of_nodup_map hnodup hg hf hid
      simp [lastOf, h.get_set g hg]
    · rw [h.get_set_ne g hg f hf hid, ih fun item hitem => hitems item (by simp [hitem])]
      simp [lastOf, hid]

/-- The items of an encoding are fields of the struct. -/
theorem Encodes.mem {items : List (FieldSpec σ × σ)} {bytes : ByteString}
    (h : Encodes P fields items bytes) : ∀ item ∈ items, item.1 ∈ fields := by
  induction h with
  | stop hstop => exact fun item hitem => nomatch hitem
  | field mem hheader hbody rest ih =>
    intro item hitem
    rcases List.mem_cons.mp hitem with rfl | hitem
    · exact mem
    · exact ih item hitem
  | unknown hstop hno hheader hskip rest ih => exact ih

/-- What a writer writes is an encoding of its fields. -/
theorem encodes_writeStruct {part : List (FieldSpec σ)} (hpart : part ⊆ fields) {t : σ}
    {bytes : ByteString} (h : writeStruct P part t = some bytes) :
    Encodes P fields ((part.filter fun f => f.present t).map fun f => (f, t)) bytes := by
  induction part generalizing bytes with
  | nil => exact .stop h
  | cons f part ih =>
    obtain ⟨hf, hpart⟩ := List.cons_subset.mp hpart
    rw [writeStruct] at h
    split at h
    · rename_i hpresent
      simp only [Option.bind_eq_bind, Option.bind_eq_some_iff] at h
      obtain ⟨header, hheader, body, hbody, rest, hrest, hbytes⟩ := h
      obtain rfl := Option.some.inj hbytes
      rw [List.filter_cons, if_pos hpresent, List.map_cons, ← List.append_assoc]
      exact .field hf hheader hbody (ih hpart hrest)
    · rename_i hpresent
      rw [List.filter_cons, if_neg hpresent]
      exact ih hpart h

/-- What a writer writes can be skipped. -/
theorem Schema.skippable_writeStruct (h : Schema P depth fields) {part : List (FieldSpec σ)}
    (hpart : part ⊆ fields) {t : σ} {bytes : ByteString}
    (hbytes : writeStruct P part t = some bytes) :
    Skippable P.toTWriter (depth + 1) .struct bytes := by
  induction part generalizing bytes with
  | nil => exact .stop hbytes
  | cons f part ih =>
    obtain ⟨hf, hpart⟩ := List.cons_subset.mp hpart
    rw [writeStruct] at hbytes
    split at hbytes
    · simp only [Option.bind_eq_bind, Option.bind_eq_some_iff] at hbytes
      obtain ⟨header, hheader, body, hbody, rest, hrest, hbytes⟩ := hbytes
      obtain rfl := Option.some.inj hbytes
      have hlawful := h.lawful f hf
      exact .field hlawful.type_ne_stop hheader (hlawful.skippable hbody) (ih hpart hrest)
    · exact ih hpart hbytes

/-- A struct is read back from what its writer writes. -/
theorem Schema.reads_writeStruct (h : Schema P depth fields) (hmembers : Members fields)
    (hpresent : ∀ f ∈ fields, ∀ t, f.present t = true) {s t : σ} {bytes : ByteString}
    (hbytes : writeStruct P fields t = some bytes) : (readStruct P fields s).Reads bytes t := by
  have hencodes := encodes_writeStruct (List.Subset.refl fields) hbytes
  rw [List.filter_eq_self.mpr fun f hf => hpresent f hf t] at hencodes
  have hread := h.reads_encodes hencodes s
  have hresult : (fields.map fun f => (f, t)).foldl
      (fun s item => item.1.set (item.1.get item.2) s) s = t := by
    refine hmembers.ext _ _ fun f hf => ?_
    rw [hmembers.get_foldl hf h.ids_nodup _ hencodes.mem]
    obtain ⟨item, hitem, hlast⟩ : ∃ item ∈ fields.map fun f => (f, t),
        ((fields.map fun f => (f, t)).filter fun item => item.1.id = f.id).getLast? =
          some item := by
      have hne : ((fields.map fun f => (f, t)).filter fun item => item.1.id = f.id) ≠ [] :=
        List.ne_nil_of_mem (List.mem_filter.mpr ⟨List.mem_map.mpr ⟨f, hf, rfl⟩, by simp⟩)
      exact ⟨_, List.mem_of_mem_filter (List.getLast_mem hne), List.getLast?_eq_some_getLast hne⟩
    obtain ⟨g, -, rfl⟩ := List.mem_map.mp hitem
    rw [lastOf, hlast]
    rfl
  rwa [hresult] at hread

end

/-! ## The structs of the services -/

/-- `ReqProto`. -/
structure ReqProto where
  userid : Int32
  deriving DecidableEq

/-- `AckProto`. -/
structure AckProto where
  identity : ByteString
  deriving DecidableEq

section

variable (P : TProtocol)

/-- The fields of `CheckResultStruct`. -/
def CheckResultStruct.fields : List (FieldSpec CheckResultStruct) :=
  [i32Field P "code" 1 (·.code) fun v s => { s with code := v },
    i32Field P "action" 2 (·.action) fun v s => { s with action := v },
    i32Field P "label" 3 (·.label) fun v s => { s with label := v },
    i32Field P "level" 4 (·.level) fun v s => { s with level := v },
    stringField P "detail" 5 (·.detail) fun v s => { s with detail := v }]

/-- The fields of `RequestCheckStruct`. -/
def RequestCheckStruct.fields : List (FieldSpec RequestCheckStruct) :=
  [i32Field P "appid" 1 (·.appid) fun v s => { s with appid := v },
    i32Field P "gameid" 2 (·.gameid) fun v s => { s with gameid := v },
    stringField P "content" 3 (·.content) fun v s => { s with content := v },
    stringField P "dataid" 4 (·.dataid) fun v s => { s with dataid := v },
    stringField P "userid" 5 (·.userid) fun v s => { s with userid := v },
    stringField P "ip" 6 (·.ip) fun v s => { s with ip := v }]

/-- The fields of `ReqProto`. -/
def ReqProto.fields : List (FieldSpec ReqProto) :=
  [i32Field P "userid" 1 (·.userid) fun v s => { s with userid := v }]

/-- The fields of `AckProto`. -/
def AckProto.fields : List (FieldSpec AckProto) :=
  [stringField P "identity" 1 (·.identity) fun v s => { s with identity := v }]

/-- The fields of `ReqCheckResult`. -/
def ReqCheckResult.fields : List (FieldSpec ReqCheckResult) :=
  [stringField P "message" 1 (·.message) fun v s => { s with message := v },
    i32Field P "flag" 2 (·.flag) fun v s => { s with flag := v },
    i32Field P "appid" 3 (·.appid) fun v s => { s with appid := v },
    i32Field P "gameid" 4 (·.gameid) fun v s => { s with gameid := v },
    stringField P "nick" 5 (·.nick) fun v s => { s with nick := v },
    byteField P "type" 6 (·.type) fun v s => { s with type := v },
    i32Field P "serverid" 7 (·.serverid) fun v s => { s with serverid := v },
    i32Field P "userid" 8 (·.userid) fun v s => { s with userid := v },
    i32Field P "rolegrade" 9 (·.rolegrade) fun v s => { s with rolegrade := v },
    i32Field P "vipgrade" 10 (·.vipgrade) fun v s => { s with vipgrade := v }]

end

/-- The generated structs. -/
inductive GeneratedStruct
  | checkResultStruct
  | requestCheckStruct
  | reqProto
  | ackProto
  | reqCheckResult

namespace GeneratedStruct

/-- The values of a struct. -/
abbrev Carrier : GeneratedStruct → Type
  | checkResultStruct => CheckResultStruct
  | requestCheckStruct => RequestCheckStruct
  | reqProto => ReqProto
  | ackProto => AckProto
  | reqCheckResult => ReqCheckResult

/-- The fields of a struct. -/
def fields (P : TProtocol) : (k : GeneratedStruct) → List (FieldSpec k.Carrier)
  | checkResultStruct => CheckResultStruct.fields P
  | requestCheckStruct => RequestCheckStruct.fields P
  | reqProto => ReqProto.fields P
  | ackProto => AckProto.fields P
  | reqCheckResult => ReqCheckResult.fields P

/-- The generated function `read`. -/
def read (P : TProtocol) (k : GeneratedStruct) (s : k.Carrier) : Reader TException k.Carrier :=
  readStruct P (k.fields P) s

/-- The generated function `write`. -/
def write (P : TProtocol) (k : GeneratedStruct) (s : k.Carrier) : Option ByteString :=
  writeStruct P (k.fields P) s

end GeneratedStruct

section

variable (P : TProtocol) {σ τ : Type} {depth : ℕ} {id : Int16} {name : String}

/-- An `i32` member is read as it is written. -/
theorem lawful_i32Field {get : σ → Int32} {set : Int32 → σ → σ} :
    (i32Field P name id get set).Lawful P depth where
  type_ne_stop := nofun
  reads h := P.reads_i32 h
  forward _ := P.forward_i32
  skippable h := .i32 h

/-- A `byte` member is read as it is written. -/
theorem lawful_byteField {get : σ → Int8} {set : Int8 → σ → σ} :
    (byteField P name id get set).Lawful P depth where
  type_ne_stop := nofun
  reads h := P.reads_byte h
  forward _ := P.forward_byte
  skippable h := .byte h

/-- A `string` member is read as it is written. -/
theorem lawful_stringField {get : σ → ByteString} {set : ByteString → σ → σ} :
    (stringField P name id get set).Lawful P depth where
  type_ne_stop := nofun
  reads h := P.reads_string h
  forward _ := P.forward_string
  skippable h := .string h

variable {P}

/-- A generated reader goes forward. -/
theorem Schema.forward_readStruct {fields : List (FieldSpec σ)} (h : Schema P depth fields)
    (s : σ) : (readStruct P fields s).Forward := forward_loop h.consumes_readRound s

/-- A struct inside another one. -/
theorem lawful_structField {fields : List (FieldSpec τ)} (h : Schema P depth fields)
    (hmembers : Members fields) (hpresent : ∀ f ∈ fields, ∀ t, f.present t = true)
    {get : σ → τ} {set : τ → σ → σ} :
    (structField P name id fields get set).Lawful P (depth + 1) where
  type_ne_stop := nofun
  reads hbytes := h.reads_writeStruct hmembers hpresent hbytes
  forward old := h.forward_readStruct old
  skippable hbytes := h.skippable_writeStruct (List.Subset.refl _) hbytes

end

namespace GeneratedStruct

variable (P : TProtocol) (k : GeneratedStruct)

/-- The numbers of the fields differ and their code is lawful. -/
theorem schema : Schema P 0 (k.fields P) where
  ids_nodup := by
    cases k <;>
      simp [fields, CheckResultStruct.fields, RequestCheckStruct.fields, ReqProto.fields,
        AckProto.fields, ReqCheckResult.fields, i32Field, byteField, stringField]
  lawful := by
    cases k <;>
      simp only [fields, CheckResultStruct.fields, RequestCheckStruct.fields, ReqProto.fields,
        AckProto.fields, ReqCheckResult.fields, List.forall_mem_cons, List.not_mem_nil,
        false_imp_iff, implies_true, lawful_i32Field, lawful_byteField, lawful_stringField,
        and_self]

/-- The fields make up the struct. -/
theorem members : Members (k.fields P) where
  get_set := by
    cases k <;>
      simp [fields, CheckResultStruct.fields, RequestCheckStruct.fields, ReqProto.fields,
        AckProto.fields, ReqCheckResult.fields, i32Field, byteField, stringField]
  get_set_ne := by
    cases k <;>
      simp [fields, CheckResultStruct.fields, RequestCheckStruct.fields, ReqProto.fields,
        AckProto.fields, ReqCheckResult.fields, i32Field, byteField, stringField]
  ext s t h := by
    cases k <;> cases s <;> cases t <;>
      simpa [fields, CheckResultStruct.fields, RequestCheckStruct.fields, ReqProto.fields,
        AckProto.fields, ReqCheckResult.fields, i32Field, byteField, stringField] using h

/-- The writer leaves no field out. -/
theorem present_eq_true : ∀ f ∈ k.fields P, ∀ t, f.present t = true := by
  cases k <;>
    simp [fields, CheckResultStruct.fields, RequestCheckStruct.fields, ReqProto.fields,
      AckProto.fields, ReqCheckResult.fields, i32Field, byteField, stringField]

end GeneratedStruct

/-- **Readers take the last value of each field.** From any bytes that hold fields of a
generated struct in any order and number, with fields that the reader does not know or
that have another type between them, the reader takes exactly these bytes. Each field
has the last value that was written for it, or the one that it had before. -/
theorem generated_read_last (P : TProtocol) (k : GeneratedStruct)
    {items : List (FieldSpec k.Carrier × k.Carrier)} {bytes : ByteString}
    (h : Encodes P (k.fields P) items bytes) (s : k.Carrier) :
    ∃ r, (k.read P s).Reads bytes r ∧
      ∀ f ∈ k.fields P, f.get r = f.get ((lastOf f items).getD s) :=
  ⟨_, (k.schema P).reads_encodes h s, fun _ hf =>
    (k.members P).get_foldl hf (k.schema P).ids_nodup items h.mem s⟩

/-- The field `code` of `CheckResultStruct`. -/
def codeField (P : TProtocol) : FieldSpec CheckResultStruct :=
  i32Field P "code" 1 (·.code) fun v s => { s with code := v }

/-- Two values of `code` with a field of another service between them. -/
theorem encodes_codes (first last : CheckResultStruct) : ∃ bytes,
    Encodes Binary.protocol (GeneratedStruct.checkResultStruct.fields Binary.protocol)
      [(codeField Binary.protocol, first), (codeField Binary.protocol, last)] bytes := by
  have hcode : codeField Binary.protocol ∈
      GeneratedStruct.checkResultStruct.fields Binary.protocol := List.mem_cons_self
  have hheader : Binary.protocol.writeFieldBegin (literal "code") .i32 1 = some _ := rfl
  have hserverid : Binary.protocol.writeFieldBegin (literal "serverid") .i32 7 = some _ := rfl
  have hfive : Binary.protocol.writeI32 5 = some _ := rfl
  have hvalue : ∀ t : CheckResultStruct, (codeField Binary.protocol).write t.code = some _ :=
    fun _ => rfl
  have hlast := Encodes.field hcode hheader (hvalue last) (.stop rfl)
  have hstop : TType.i32 ≠ .stop := nofun
  have hunknown := Encodes.unknown hstop
    (by simp [GeneratedStruct.fields, CheckResultStruct.fields, i32Field, stringField])
    hserverid (Binary.protocol.reads_skip (.i32 hfive)) hlast
  exact ⟨_, .field hcode hheader (hvalue first) hunknown⟩

/-- The reader takes the second value. -/
theorem generated_read_last_codes : ∃ bytes r,
    (GeneratedStruct.checkResultStruct.read Binary.protocol ⟨0, 0, 0, 0, []⟩).Reads bytes r ∧
      r.code = 3 := by
  obtain ⟨bytes, h⟩ := encodes_codes ⟨1, 2, 0, 0, []⟩ ⟨3, 4, 0, 0, []⟩
  obtain ⟨r, hread, hlast⟩ := generated_read_last _ .checkResultStruct h ⟨0, 0, 0, 0, []⟩
  exact ⟨bytes, r, hread, hlast (codeField _) List.mem_cons_self⟩

/-- A generated reader reads what the generated writer writes. -/
theorem GeneratedStruct.reads_write (P : TProtocol) (k : GeneratedStruct) {s t : k.Carrier}
    {bytes : ByteString} (h : k.write P t = some bytes) : (k.read P s).Reads bytes t :=
  (k.schema P).reads_writeStruct (k.members P) (k.present_eq_true P) h

end ThriftProxy
