import ThriftProxy.Lib.Text
import ThriftProxy.Lib.Transition

/-!
# The configuration

`file_config_manager.cpp`, `config_manager.h` and the functions of `server.cpp`
over them: a file of key and value lines with includes is parsed into a map that
a running server answers from. Every call sees its own state of the file system,
and including files takes fuel.
-/

namespace ThriftProxy

open Machine

/-! ## Files -/

/-- What `ParseConfigFile` meets behind a file name. -/
inductive FileOutcome
  /-- `open` fails. -/
  | missing
  /-- `malloc` fails. -/
  | noMemory
  /-- `read` fails. -/
  | readError
  /-- The file is read. -/
  | contents (bytes : List UInt8)

/-- The files that exist at a call, by name. -/
abbrev FileSystem := List (List UInt8 × FileOutcome)

/-- What is behind a file name. -/
def FileSystem.outcome (files : FileSystem) (fileName : List UInt8) : FileOutcome :=
  (files.lookup fileName).getD .missing

/-- The number of bytes that one `read` transfers at most. -/
def maxRead : ℕ := 0x7ffff000

/-- The text in the buffer, or none if the buffer cannot be had: the size of the
file goes into the `int len`. The size `2 ^ 31 - 1`, for which `len + 1` overflows, is
taken as any other. -/
def readText (bytes : List UInt8) : Option (List UInt8) :=
  let len := wrapInt bytes.length
  if len < 0 then none else some (cstr (bytes.take (min len.toNat maxRead)))

/-- The text that is parsed, or none if `ParseConfigFile` fails. -/
def FileOutcome.text : FileOutcome → Option (List UInt8)
  | missing => none
  | noMemory => none
  | readError => none
  | contents bytes => readText bytes

/-! ## Lines -/

/-- The delimiters of `strtok`: an equals sign, a blank and a tab. -/
def configDelims : List UInt8 := [61, 32, 9]

/-- The byte of a hash sign. -/
def hash : UInt8 := 35

/-- The byte of a line end. -/
def newline : UInt8 := 10

/-- The key of an include line, in bytes. -/
def includeKey : List UInt8 := [105, 110, 99, 108, 117, 100, 101]

/-- The bytes of a key of the configuration. -/
def keyOf (name : String) : List UInt8 := name.toList.map fun c => UInt8.ofNat c.toNat

/-- What a line of a configuration file says. -/
inductive ConfigLine
  /-- A comment, or fewer than two tokens. -/
  | idle
  /-- A key with a value. -/
  | entry (key val : List UInt8)
  /-- A file to include. -/
  | inclusion (fileName : List UInt8)
  deriving DecidableEq

/-- The line as the loop of `ParseConfigFile` takes it apart. -/
def configLine (line : List UInt8) : ConfigLine :=
  if line.head? = some hash then .idle
  else
    match Text.strtok configDelims line with
    | none => .idle
    | some (key, rest) =>
      match Text.strtok configDelims rest with
      | none => .idle
      | some (val, _) => if key = includeKey then .inclusion val else .entry key val

/-! ## Parsing -/

/-- `map<string, string>`, as the pairs in the order of their insertion. -/
abbrev ConfigMap := List (List UInt8 × List UInt8)

/-- What a function that returns `bool` returns through `BOOT_LOG`. -/
def bootLog (ok : ℤ) : Bool := ok ≠ 0

/-- The loop of `ParseConfigFile` over the lines of a buffer. A repeated key leaves
the function through `BOOT_LOG`. -/
def parseLines (parseConfigFile : List UInt8 → ConfigMap → Option (Bool × ConfigMap)) :
    List (List UInt8) → ConfigMap → Option (Bool × ConfigMap)
  | [], configMap => some (true, configMap)
  | line :: rest, configMap =>
    match configLine line with
    | .idle => parseLines parseConfigFile rest configMap
    | .entry key val =>
      match configMap.lookup key with
      | none => parseLines parseConfigFile rest (configMap ++ [(key, val)])
      | some _ => some (bootLog (-1), configMap)
    | .inclusion fileName =>
      (parseConfigFile fileName configMap).bind fun (ret, configMap) =>
        if ret then parseLines parseConfigFile rest configMap else some (false, configMap)

/-- `ParseConfigFile`: what it returns and the map it leaves. -/
def parseConfigFile (files : FileSystem) :
    ℕ → List UInt8 → ConfigMap → Option (Bool × ConfigMap)
  | 0, _, _ => none
  | fuel + 1, fileName, configMap =>
    match (files.outcome fileName).text with
    | none => some (false, configMap)
    | some text => parseLines (parseConfigFile files fuel) (Text.pieces newline text) configMap

/-! ## The manager -/

/-- `FileConfigManager`. -/
structure ConfigManager where
  /-- `m_config_map`. -/
  configMap : ConfigMap
  /-- `loaded`. -/
  loaded : Bool
  deriving DecidableEq

namespace ConfigManager

/-- `LoadConfig`, over `_LoadConfig`, which clears the map. -/
def loadConfig (fuel : ℕ) (files : FileSystem) (source : List UInt8) (cm : ConfigManager) :
    Option (Bool × ConfigManager) :=
  (parseConfigFile files fuel source []).map fun (ret, configMap) =>
    (ret, { configMap := configMap, loaded := if ret then true else cm.loaded })

/-- `ReloadConfig`. -/
def reloadConfig (fuel : ℕ) (files : FileSystem) (source : List UInt8) (cm : ConfigManager) :
    Option (Bool × ConfigManager) :=
  (parseConfigFile files fuel source []).map fun (ret, newConfigMap) =>
    if ret then (true, { cm with configMap := newConfigMap }) else (false, cm)

/-- `ConfigGetIntVal`. -/
def configGetIntVal (key : List UInt8) (val : ℤ) (cm : ConfigManager) : ℤ :=
  match cm.configMap.lookup key with
  | none => val
  | some text => Text.atoi text

/-- `ConfigGetStrVal`. The default may be a null pointer. -/
def configGetStrVal (key : List UInt8) (val : Option (List UInt8)) (cm : ConfigManager) :
    Option (List UInt8) :=
  match cm.configMap.lookup key with
  | none => val
  | some text => some text

end ConfigManager

/-! ## The functions of the server -/

/-- A call of a function of the server, with the files at the time of the call. -/
inductive ConfigCall
  /-- `load_config`; the allocation of the manager may fail. -/
  | load (files : FileSystem) (source : List UInt8) (allocated : Bool)
  | reload (files : FileSystem) (source : List UInt8)
  | getIntval (key : List UInt8) (defult : ℤ)
  | getStrval (key : List UInt8) (defult : Option (List UInt8))

/-- What a call returns. -/
inductive ConfigAnswer
  | done (ok : Bool)
  | int (val : ℤ)
  | str (val : Option (List UInt8))
  deriving DecidableEq

/-- `load_config` on the manager `cm`, if there is one. -/
def loadConfig (fuel : ℕ) (files : FileSystem) (source : List UInt8) (allocated : Bool)
    (cm : Option ConfigManager) : Option (Bool × Option ConfigManager) :=
  match cm with
  | some cm =>
    if cm.loaded then some (true, some cm)
    else (cm.loadConfig fuel files source).map fun (ok, cm) => (ok, some cm)
  | none =>
    if allocated then
      let cm : ConfigManager := { configMap := [], loaded := false }
      (cm.loadConfig fuel files source).map fun (ok, cm) => (ok, some cm)
    else some (false, none)

/-- `reload_config`. -/
def reloadConfig (fuel : ℕ) (files : FileSystem) (source : List UInt8)
    (cm : Option ConfigManager) : Option (Bool × Option ConfigManager) :=
  match cm with
  | some cm =>
    if cm.loaded then (cm.reloadConfig fuel files source).map fun (ok, cm) => (ok, some cm)
    else some (false, some cm)
  | none => some (false, none)

/-- `config_get_intval`. -/
def configGetIntval (key : List UInt8) (defult : ℤ) (cm : Option ConfigManager) : ℤ :=
  match cm with
  | some cm => if cm.loaded then cm.configGetIntVal key defult else defult
  | none => defult

/-- `config_get_strval`. -/
def configGetStrval (key : List UInt8) (defult : Option (List UInt8))
    (cm : Option ConfigManager) : Option (List UInt8) :=
  match cm with
  | some cm => if cm.loaded then cm.configGetStrVal key defult else defult
  | none => defult

/-- One call: its answer and the manager after it. -/
def ConfigCall.run (fuel : ℕ) (cm : Option ConfigManager) :
    ConfigCall → Option (ConfigAnswer × Option ConfigManager)
  | .load files source allocated =>
    (loadConfig fuel files source allocated cm).map fun (ok, cm) => (.done ok, cm)
  | .reload files source =>
    (reloadConfig fuel files source cm).map fun (ok, cm) => (.done ok, cm)
  | .getIntval key defult => some (.int (configGetIntval key defult cm), cm)
  | .getStrval key defult => some (.str (configGetStrval key defult cm), cm)

/-- The answers to a sequence of calls, and the manager after it. -/
def runCalls (fuel : ℕ) :
    Option ConfigManager → List ConfigCall → Option (List ConfigAnswer × Option ConfigManager)
  | cm, [] => some ([], cm)
  | cm, call :: calls =>
    (call.run fuel cm).bind fun (answer, cm) =>
      (runCalls fuel cm calls).map fun (answers, cm) => (answer :: answers, cm)

end ThriftProxy
