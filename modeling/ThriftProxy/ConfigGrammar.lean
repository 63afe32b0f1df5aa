import ThriftProxy.ConfigSnapshots

/-!
# The grammar of configuration files

A configuration file is a text of lines. Each include line stands for the lines of
the file that it names, and each other line with two tokens maps the first one to
the second. `ParseConfigFile` reads exactly this map from files that include each
other without cycles and repeat no key, wherever the lines of a file stand in it.
-/

namespace ThriftProxy

open Machine Fuel Relation

/-! ## The meaning of files -/

/-- The lines of a text, between its newlines. -/
def textLines (bytes : List UInt8) : List (List UInt8) := bytes.splitOn newline

/-- The tokens of a line, between equals signs, blanks and tabs. -/
def lineTokens (line : List UInt8) : List (List UInt8) := Text.tokens configDelims line

/-- The file that a line stands for. -/
def includedFile (line : List UInt8) : Option (List UInt8) :=
  match lineTokens line with
  | key :: fileName :: _ => if key = includeKey then some fileName else none
  | _ => none

/-- The key and the value of a line that is not an include line. -/
def lineEntry (line : List UInt8) : Option (List UInt8 × List UInt8) :=
  if line.head? = some hash then none
  else
    match lineTokens line with
    | key :: val :: _ => some (key, val)
    | _ => none

/-- Lines with the lines of included files in the place of include lines. -/
inductive Expansion (files : FileSystem) : List (List UInt8) → List (List UInt8) → Prop
  | nil : Expansion files [] []
  | plain {line : List UInt8} {rest expanded : List (List UInt8)} :
      includedFile line = none → Expansion files rest expanded →
      Expansion files (line :: rest) (line :: expanded)
  | inclusion {line fileName bytes : List UInt8} {rest inner expanded : List (List UInt8)} :
      includedFile line = some fileName → files.outcome fileName = .contents bytes →
      Expansion files (textLines bytes) inner → Expansion files rest expanded →
      Expansion files (line :: rest) (inner ++ expanded)

/-- The map that lines without includes define. -/
def entriesOf (expanded : List (List UInt8)) : ConfigMap := expanded.filterMap lineEntry

/-- A file names another one in an include line. -/
def NamesFile (files : FileSystem) (fileName file : List UInt8) : Prop :=
  ∃ bytes, files.outcome file = .contents bytes ∧
    ∃ line ∈ textLines bytes, includedFile line = some fileName

/-- The files are text that one `read` returns as a whole, and include lines name
existing files and form no cycle. -/
structure FileSystem.Wellformed (files : FileSystem) : Prop where
  /-- The files are read as a whole. -/
  whole : ∀ file bytes, files.outcome file = .contents bytes → bytes.length ≤ maxRead
  /-- The files have no NUL byte. -/
  text : ∀ file bytes, files.outcome file = .contents bytes → (0 : UInt8) ∉ bytes
  /-- The files named exist. -/
  named : ∀ fileName file, NamesFile files fileName file →
    ∃ bytes, files.outcome fileName = .contents bytes
  /-- The include lines form no cycle. -/
  acyclic : ∀ file, ¬ TransGen (NamesFile files) file file

/-- The files hold the same lines in any order, empty lines apart. -/
def Reordered (files files' : FileSystem) : Prop :=
  ∀ file bytes, files.outcome file = .contents bytes →
    ∃ bytes', files'.outcome file = .contents bytes' ∧
      ((textLines bytes').filter (· ≠ [])).Perm ((textLines bytes).filter (· ≠ []))

/-! ## Lines -/

/-- The first token of a line that starts with a hash sign starts with it, too. -/
theorem includedFile_of_hash {line : List UInt8} (h : line.head? = some hash) :
    includedFile line = none := by
  obtain ⟨rest, rfl⟩ : ∃ rest, line = hash :: rest := by
    cases line with
    | nil => cases h
    | cons b rest => exact ⟨rest, by rw [Option.some.inj h]⟩
  have htokens := Text.tokens_eq_strtok configDelims (hash :: rest)
  have hdelim : hash ∉ configDelims := by decide
  rw [Text.strtok, List.dropWhile_cons_of_neg (by simpa using hdelim),
    if_neg (List.cons_ne_nil _ _), List.takeWhile_cons_of_pos (by simpa using hdelim)] at htokens
  simp only at htokens
  rw [includedFile, lineTokens, htokens]
  split
  · rename_i key fileName _ hkey
    rw [List.cons.injEq] at hkey
    refine if_neg ?_
    rw [← hkey.1]
    intro heq
    exact absurd (List.cons.inj heq).1 (by decide)
  · rfl

/-- What the loop makes of a line is what the line stands for. -/
theorem configLine_eq (line : List UInt8) :
    configLine line =
      match includedFile line with
      | some fileName => .inclusion fileName
      | none =>
        match lineEntry line with
        | some (key, val) => .entry key val
        | none => .idle := by
  by_cases hhash : line.head? = some hash
  · rw [includedFile_of_hash hhash, lineEntry, if_pos hhash, configLine, if_pos hhash]
  · rw [configLine, if_neg hhash, includedFile, lineEntry, if_neg hhash, lineTokens,
      Text.tokens_eq_strtok]
    cases Text.strtok configDelims line with
    | none => rfl
    | some first =>
      simp only [Text.tokens_eq_strtok configDelims first.2]
      cases Text.strtok configDelims first.2 with
      | none => rfl
      | some second =>
        by_cases hkey : first.1 = includeKey
        · simp only [hkey, if_true]
        · simp only [hkey, if_false]

/-! ## Expansions -/

section

variable {files : FileSystem} {line fileName : List UInt8}
  {lines front back rest expanded : List (List UInt8)}

/-- A line that includes nothing stands for itself. -/
theorem Expansion.of_plain (h : Expansion files (line :: rest) expanded)
    (hline : includedFile line = none) :
    ∃ others, expanded = line :: others ∧ Expansion files rest others := by
  cases h with
  | plain _ hrest => exact ⟨_, rfl, hrest⟩
  | inclusion hother _ _ _ => cases hother.symm.trans hline

/-- A line that includes a file stands for the lines of the file. -/
theorem Expansion.of_inclusion (h : Expansion files (line :: rest) expanded)
    (hline : includedFile line = some fileName) :
    ∃ bytes inner others, files.outcome fileName = .contents bytes ∧ expanded = inner ++ others ∧
      Expansion files (textLines bytes) inner ∧ Expansion files rest others := by
  cases h with
  | plain hother _ => cases hother.symm.trans hline
  | inclusion hother hbytes hinner hrest =>
    cases hother.symm.trans hline
    exact ⟨_, _, _, hbytes, rfl, hinner, hrest⟩

/-- Lines have one expansion. -/
theorem Expansion.unique {expanded' : List (List UInt8)} (h : Expansion files lines expanded)
    (h' : Expansion files lines expanded') : expanded = expanded' := by
  induction h generalizing expanded' with
  | nil =>
    cases h'
    rfl
  | plain hline _ ih =>
    obtain ⟨others, rfl, hrest⟩ := h'.of_plain hline
    rw [ih hrest]
  | inclusion hline hbytes _ _ ihInner ihRest =>
    obtain ⟨bytes', inner', others, hbytes', rfl, hinner', hrest'⟩ := h'.of_inclusion hline
    cases hbytes.symm.trans hbytes'
    rw [ihInner hinner', ihRest hrest']

/-- The expansion of lines behind others stands behind theirs. -/
theorem Expansion.append {expanded' : List (List UInt8)} (h : Expansion files front expanded)
    (h' : Expansion files back expanded') :
    Expansion files (front ++ back) (expanded ++ expanded') := by
  induction h with
  | nil => exact h'
  | plain hline _ ih => exact .plain hline ih
  | inclusion hline hbytes hinner _ _ ih =>
    rw [List.append_assoc]
    exact .inclusion hline hbytes hinner ih

/-- The expansion of lines is that of the first ones and that of the others. -/
theorem Expansion.split (h : Expansion files (front ++ back) expanded) :
    ∃ first others, expanded = first ++ others ∧ Expansion files front first ∧
      Expansion files back others := by
  induction front generalizing expanded with
  | nil => exact ⟨[], expanded, rfl, .nil, h⟩
  | cons line front ih =>
    cases h with
    | plain hline hrest =>
      obtain ⟨first, others, rfl, hfirst, hothers⟩ := ih hrest
      exact ⟨line :: first, others, rfl, .plain hline hfirst, hothers⟩
    | inclusion hline hbytes hinner hrest =>
      obtain ⟨first, others, rfl, hfirst, hothers⟩ := ih hrest
      exact ⟨_, others, (List.append_assoc _ _ _).symm, .inclusion hline hbytes hinner hfirst,
        hothers⟩

/-- Lines can be expanded when the files that they name can. -/
theorem expansion_exists
    (h : ∀ line ∈ lines, ∀ fileName, includedFile line = some fileName →
      ∃ bytes inner, files.outcome fileName = .contents bytes ∧
        Expansion files (textLines bytes) inner) :
    ∃ expanded, Expansion files lines expanded := by
  induction lines with
  | nil => exact ⟨[], .nil⟩
  | cons line rest ih =>
    obtain ⟨expanded, hrest⟩ := ih fun other hmem => h other (List.mem_cons_of_mem _ hmem)
    cases hline : includedFile line with
    | none => exact ⟨_, .plain hline hrest⟩
    | some fileName =>
      obtain ⟨bytes, inner, hbytes, hinner⟩ := h line List.mem_cons_self fileName hline
      exact ⟨_, .inclusion hline hbytes hinner hrest⟩

/-- A file that names others exists. -/
theorem NamesFile.mem_names {file : List UInt8} (h : NamesFile files fileName file) :
    file ∈ files.map Prod.fst := by
  obtain ⟨bytes, hbytes, -⟩ := h
  exact mem_names_of_contents hbytes

/-- The files of a well-formed file system can be expanded. -/
theorem FileSystem.Wellformed.expansion_exists (h : files.Wellformed) {file bytes : List UInt8}
    (hfile : files.outcome file = .contents bytes) :
    ∃ expanded, Expansion files (textLines bytes) expanded := by
  have hwf : WellFounded (NamesFile files) :=
    wellFounded_of_acyclic (finite_names files) (fun _ _ hnames => hnames.mem_names) h.acyclic
  induction file using hwf.induction generalizing bytes with
  | _ file ih =>
    apply ThriftProxy.expansion_exists
    intro line hmem fileName hline
    have hnames : NamesFile files fileName file := ⟨bytes, hfile, line, hmem, hline⟩
    obtain ⟨bytes', hbytes'⟩ := h.named fileName file hnames
    obtain ⟨inner, hinner⟩ := ih fileName hnames hbytes'
    exact ⟨bytes', inner, hbytes', hinner⟩

end

/-! ## Parsing -/

section

variable {files : FileSystem}

/-- A last line that says nothing does not matter. -/
theorem parseLines_concat_idle
    (parse : List UInt8 → ConfigMap → Option (Bool × ConfigMap)) {line : List UInt8}
    (hline : configLine line = .idle) (lines : List (List UInt8)) (configMap : ConfigMap) :
    parseLines parse (lines ++ [line]) configMap = parseLines parse lines configMap := by
  induction lines generalizing configMap with
  | nil => simp [parseLines, hline]
  | cons first rest ih => simp only [List.cons_append, parseLines, ih]

/-- The loop over the pieces of a text is the loop over its lines. -/
theorem parseLines_pieces (parse : List UInt8 → ConfigMap → Option (Bool × ConfigMap))
    (bytes : List UInt8) (configMap : ConfigMap) :
    parseLines parse (Text.pieces newline bytes) configMap =
      parseLines parse (textLines bytes) configMap := by
  rw [textLines]
  obtain hlines | hlines := Text.splitOn_eq_pieces newline bytes
  · rw [hlines]
  · rw [hlines, parseLines_concat_idle parse (by decide)]

/-- The text of a file that one `read` returns as a whole is the file. -/
theorem FileSystem.Wellformed.text_eq (h : files.Wellformed) {file bytes : List UInt8}
    (hfile : files.outcome file = .contents bytes) :
    (files.outcome file).text = some bytes := by
  have hle := h.whole file bytes hfile
  have hsmall : bytes.length < 2 ^ 31 := lt_of_le_of_lt hle (by decide)
  have hlen : wrapInt bytes.length = bytes.length :=
    wrapInt_eq_self (by omega) (by exact_mod_cast hsmall)
  have hnonneg : ¬ (bytes.length : ℤ) < 0 := by omega
  rw [hfile, FileOutcome.text, readText]
  simp only [hlen, hnonneg, if_false]
  rw [Int.toNat_natCast, min_eq_left hle, List.take_length, cstr_eq_self (h.text file bytes hfile)]

/-- The loop adds the entries of the expansion to the map, if they repeat no key. -/
theorem parseLines_of_expansion (h : files.Wellformed) {lines expanded : List (List UInt8)}
    (hexpand : Expansion files lines expanded) {seen : ConfigMap}
    (hnodup : ((seen ++ entriesOf expanded).map Prod.fst).Nodup) :
    Returns (fun fuel => parseLines (parseConfigFile files fuel) lines seen)
      (true, seen ++ entriesOf expanded) := by
  induction hexpand generalizing seen with
  | nil =>
    rw [entriesOf, List.filterMap_nil, List.append_nil]
    exact returns_const _
  | @plain line rest expanded hline _ ih =>
    have hmeaning := configLine_eq line
    rw [hline] at hmeaning
    cases hentry : lineEntry line with
    | none =>
      have hskip : entriesOf (line :: expanded) = entriesOf expanded :=
        List.filterMap_cons_none hentry
      rw [hentry] at hmeaning
      rw [hskip] at hnodup ⊢
      simp only [parseLines, hmeaning]
      exact ih hnodup
    | some entry =>
      obtain ⟨key, val⟩ := entry
      have hcons : entriesOf (line :: expanded) = (key, val) :: entriesOf expanded :=
        List.filterMap_cons_some hentry
      rw [hentry] at hmeaning
      rw [hcons] at hnodup ⊢
      have hnew : seen.lookup key = none := by
        rw [← Option.not_isSome_iff_eq_none, lookup_isSome_iff]
        intro hmem
        rw [List.map_append] at hnodup
        exact (List.nodup_append.mp hnodup).2.2 key hmem key List.mem_cons_self rfl
      simp only [parseLines, hmeaning, hnew]
      rw [List.append_cons] at hnodup
      rw [List.append_cons seen (key, val) (entriesOf expanded)]
      exact ih hnodup
  | @inclusion line fileName bytes rest inner expanded hline hbytes _ _ ihInner ihRest =>
    have hmeaning := configLine_eq line
    rw [hline] at hmeaning
    have happend : entriesOf (inner ++ expanded) = entriesOf inner ++ entriesOf expanded :=
      List.filterMap_append
    rw [happend, ← List.append_assoc] at hnodup ⊢
    have hinner := ihInner (hnodup.sublist (List.Sublist.map _ (List.sublist_append_left _ _)))
    have hfile : Returns (fun fuel => parseConfigFile files fuel fileName seen)
        (true, seen ++ entriesOf inner) := by
      apply Returns.of_succ
      simp only [parseConfigFile, h.text_eq hbytes, parseLines_pieces]
      exact hinner
    simp only [parseLines, hmeaning]
    exact hfile.bind (ihRest hnodup)

/-- A well-formed file whose expansion repeats no key is parsed into the map that its
expansion defines. -/
theorem parseConfigFile_of_expansion (h : files.Wellformed) {root bytes : List UInt8}
    {expanded : List (List UInt8)} (hroot : files.outcome root = .contents bytes)
    (hexpand : Expansion files (textLines bytes) expanded)
    (hnodup : ((entriesOf expanded).map Prod.fst).Nodup) :
    Returns (fun fuel => parseConfigFile files fuel root []) (true, entriesOf expanded) := by
  apply Returns.of_succ
  simp only [parseConfigFile, h.text_eq hroot, parseLines_pieces]
  exact parseLines_of_expansion h hexpand hnodup

end

/-! ## The order of lines -/

section

variable {files files' : FileSystem}

/-- Files hold their own lines. -/
theorem Reordered.refl (files : FileSystem) : Reordered files files :=
  fun _ bytes hbytes => ⟨bytes, hbytes, List.Perm.refl _⟩

/-- An empty line includes no file and has no entry. -/
theorem empty_line : includedFile [] = none ∧ lineEntry [] = none := by decide

/-- A line that is somewhere among others, up to their order, leaves the others. -/
theorem exists_of_perm_filter {line : List UInt8} {lines' rest : List (List UInt8)}
    (hline : line ≠ [])
    (hlines : (lines'.filter (· ≠ [])).Perm ((line :: rest).filter (· ≠ []))) :
    ∃ front back, lines' = front ++ line :: back ∧
      ((front ++ back).filter (· ≠ [])).Perm (rest.filter (· ≠ [])) := by
  rw [List.filter_cons_of_pos (by simpa using hline)] at hlines
  have hmem : line ∈ lines' := by
    have hfilter : line ∈ lines'.filter (· ≠ []) := hlines.mem_iff.mpr List.mem_cons_self
    exact (List.mem_filter.mp hfilter).1
  obtain ⟨front, back, rfl⟩ := List.append_of_mem hmem
  refine ⟨front, back, rfl, ?_⟩
  rw [List.filter_append, List.filter_cons_of_pos (by simpa using hline)] at hlines
  rw [List.filter_append]
  exact (List.perm_middle.symm.trans hlines).cons_inv

/-- The entries of lines around a line are those of the line and those of the others. -/
theorem Expansion.entries_middle {line : List UInt8} {front back expanded : List (List UInt8)}
    (h : Expansion files (front ++ line :: back) expanded) :
    ∃ middle others, Expansion files [line] middle ∧ Expansion files (front ++ back) others ∧
      (entriesOf expanded).Perm (entriesOf middle ++ entriesOf others) := by
  rw [List.append_cons] at h
  obtain ⟨start, last, rfl, hstart, hlast⟩ := h.split
  obtain ⟨first, middle, rfl, hfirst, hmiddle⟩ := hstart.split
  refine ⟨middle, first ++ last, hmiddle, hfirst.append hlast, ?_⟩
  simp only [entriesOf, List.filterMap_append, ← List.append_assoc]
  exact List.perm_append_comm.append_right _

/-- Empty lines have no entries. -/
theorem Expansion.entries_of_empty {lines expanded : List (List UInt8)}
    (h : Expansion files lines expanded) (hlines : lines.filter (· ≠ []) = []) :
    entriesOf expanded = [] := by
  have hempty : ∀ line ∈ lines, line = [] := by simpa using hlines
  induction h with
  | nil => rfl
  | plain _ _ ih =>
    rw [hempty _ List.mem_cons_self, entriesOf, List.filterMap_cons_none empty_line.2]
    have hrest := fun other hmem => hempty other (List.mem_cons_of_mem _ hmem)
    exact ih (by simpa using hrest) hrest
  | inclusion hline _ _ _ _ _ =>
    rw [hempty _ List.mem_cons_self, empty_line.1] at hline
    cases hline

/-- The same lines in another order have the same entries in another order. -/
theorem Expansion.entries_perm (hfiles : Reordered files files')
    {lines lines' expanded expanded' : List (List UInt8)} (h : Expansion files lines expanded)
    (h' : Expansion files' lines' expanded')
    (hlines : (lines'.filter (· ≠ [])).Perm (lines.filter (· ≠ []))) :
    (entriesOf expanded').Perm (entriesOf expanded) := by
  induction h generalizing lines' expanded' with
  | nil => rw [h'.entries_of_empty hlines.eq_nil, entriesOf, List.filterMap_nil]
  | @plain line rest expanded hline _ ih =>
    by_cases hempty : line = []
    · subst hempty
      rw [entriesOf, entriesOf, List.filterMap_cons_none empty_line.2]
      exact ih h' hlines
    · obtain ⟨front, back, rfl, hrest⟩ := exists_of_perm_filter hempty hlines
      obtain ⟨middle, others, hmiddle, hothers, hperm⟩ := h'.entries_middle
      obtain ⟨none, rfl, hnone⟩ := hmiddle.of_plain hline
      obtain rfl : none = [] := hnone.unique .nil
      have hcons : entriesOf (line :: expanded) = entriesOf [line] ++ entriesOf expanded := by
        rw [← List.singleton_append, entriesOf, List.filterMap_append]
        rfl
      rw [hcons]
      exact hperm.trans ((ih hothers hrest).append_left _)
  | @inclusion line fileName bytes rest inner expanded hline hbytes _ _ ihInner ihRest =>
    have hempty : line ≠ [] := by
      rintro rfl
      exact absurd (empty_line.1.symm.trans hline) (by simp)
    obtain ⟨front, back, rfl, hrest⟩ := exists_of_perm_filter hempty hlines
    obtain ⟨middle, others, hmiddle, hothers, hperm⟩ := h'.entries_middle
    obtain ⟨bytes', inner', none, hbytes', rfl, hinner', hnone⟩ := hmiddle.of_inclusion hline
    obtain rfl : none = [] := hnone.unique .nil
    obtain ⟨bytes'', hbytes'', hinner⟩ := hfiles fileName bytes hbytes
    cases hbytes'.symm.trans hbytes''
    rw [List.append_nil] at hperm
    have happend : entriesOf (inner ++ expanded) = entriesOf inner ++ entriesOf expanded :=
      List.filterMap_append
    rw [happend]
    exact hperm.trans ((ihInner hinner' hinner).append (ihRest hothers hrest))

/-- Entries without repeated keys define the same map in every order. -/
theorem SameValues.of_perm {entries entries' : ConfigMap} (h : entries'.Perm entries)
    (hnodup : (entries.map Prod.fst).Nodup) : SameValues entries' entries := by
  intro key
  induction h with
  | nil => rfl
  | cons entry _ ih =>
    rw [List.lookup_cons, List.lookup_cons, ih (List.nodup_cons.mp hnodup).2]
  | swap entry entry' entries =>
    have hne : entry'.1 ≠ entry.1 := by
      intro heq
      simp [heq] at hnodup
    rw [List.lookup_cons, List.lookup_cons, List.lookup_cons, List.lookup_cons]
    by_cases hkey : key = entry.1
    · subst hkey
      rw [beq_false_of_ne hne.symm, beq_self_eq_true]
    · rw [beq_false_of_ne hkey]
  | trans h₁ h₂ ih₁ ih₂ =>
    rw [ih₁ ((h₂.map Prod.fst).nodup_iff.mpr hnodup), ih₂ hnodup]

end

/-- **The grammar.** Files that name existing files in no cycle have one expansion,
and if it repeats no key, `ParseConfigFile` returns true with the map that the
expansion defines, in whatever order the files hold their lines. -/
theorem parseConfigFile_grammar {files : FileSystem} (h : files.Wellformed)
    {root bytes : List UInt8} (hroot : files.outcome root = .contents bytes) :
    ∃ expanded, Expansion files (textLines bytes) expanded ∧
      (∀ other, Expansion files (textLines bytes) other → other = expanded) ∧
      (((entriesOf expanded).map Prod.fst).Nodup →
        ∀ files', files'.Wellformed → Reordered files files' →
          ∃ configMap, Returns (fun fuel => parseConfigFile files' fuel root []) (true, configMap) ∧
            SameValues configMap (entriesOf expanded)) := by
  obtain ⟨expanded, hexpand⟩ := h.expansion_exists hroot
  refine ⟨expanded, hexpand, fun other hother => hother.unique hexpand, ?_⟩
  intro hnodup files' h' hfiles
  obtain ⟨bytes', hroot', hlines⟩ := hfiles root bytes hroot
  obtain ⟨expanded', hexpand'⟩ := h'.expansion_exists hroot'
  have hperm := hexpand.entries_perm hfiles hexpand' hlines
  have hnodup' := (hperm.map Prod.fst).nodup_iff.mpr hnodup
  exact ⟨_, parseConfigFile_of_expansion h' hroot' hexpand' hnodup',
    SameValues.of_perm hperm hnodup⟩

/-- The name of a file that is included. -/
def innerName : List UInt8 := [100]

/-- The lines `a=1`, `include d` and `#c 3`, the last one without a newline. -/
def outerFile : List UInt8 :=
  [97, 61, 49, 10, 105, 110, 99, 108, 117, 100, 101, 32, 100, 10, 35, 99, 32, 51]

/-- The line `b  2`. -/
def innerFile : List UInt8 := [98, 32, 32, 50, 10]

/-- A file that includes another one. -/
def twoFiles : FileSystem := [(confName, .contents outerFile), (innerName, .contents innerFile)]

/-- Both files are there. -/
theorem twoFiles_cases {file bytes : List UInt8} (h : twoFiles.outcome file = .contents bytes) :
    (file = confName ∧ bytes = outerFile) ∨ (file = innerName ∧ bytes = innerFile) := by
  rw [FileSystem.outcome, twoFiles, List.lookup_cons, List.lookup_cons] at h
  by_cases houter : file = confName
  · subst houter
    rw [beq_self_eq_true] at h
    cases h
    exact .inl ⟨rfl, rfl⟩
  · rw [beq_false_of_ne houter] at h
    by_cases hinner : file = innerName
    · subst hinner
      rw [beq_self_eq_true] at h
      cases h
      exact .inr ⟨rfl, rfl⟩
    · rw [beq_false_of_ne hinner] at h
      cases h

/-- The outer file names the inner one, and that is all. -/
theorem twoFiles_names {fileName file : List UInt8} (h : NamesFile twoFiles fileName file) :
    fileName = innerName ∧ file = confName := by
  obtain ⟨bytes, hbytes, line, hmem, hline⟩ := h
  obtain ⟨rfl, rfl⟩ | ⟨rfl, rfl⟩ := twoFiles_cases hbytes
  · have hall : ∀ line ∈ textLines outerFile, includedFile line = none ∨
        includedFile line = some innerName := by decide
    obtain hnone | hsome := hall line hmem
    · cases hnone.symm.trans hline
    · cases hsome.symm.trans hline
      exact ⟨rfl, rfl⟩
  · have hall : ∀ line ∈ textLines innerFile, includedFile line = none := by decide
    cases (hall line hmem).symm.trans hline

/-- The two files are well formed. -/
theorem twoFiles_wellformed : twoFiles.Wellformed := by
  refine ⟨?_, ?_, ?_, ?_⟩
  · intro file bytes h
    obtain ⟨-, rfl⟩ | ⟨-, rfl⟩ := twoFiles_cases h <;> decide
  · intro file bytes h
    obtain ⟨-, rfl⟩ | ⟨-, rfl⟩ := twoFiles_cases h <;> decide
  · intro fileName file h
    obtain ⟨rfl, -⟩ := twoFiles_names h
    exact ⟨innerFile, rfl⟩
  · intro file hcycle
    obtain ⟨_, hfirst, -⟩ := TransGen.head'_iff.mp hcycle
    obtain ⟨_, -, hlast⟩ := TransGen.tail'_iff.mp hcycle
    have hinner := (twoFiles_names hfirst).1
    have houter := (twoFiles_names hlast).2
    exact absurd (hinner.symm.trans houter) (by decide)

/-- The outer file is parsed into the entries of both files. -/
theorem parseConfigFile_twoFiles :
    ∃ configMap, Returns (fun fuel => parseConfigFile twoFiles fuel confName []) (true, configMap) ∧
      SameValues configMap [([97], [49]), ([98], [50])] := by
  have houter : twoFiles.outcome confName = .contents outerFile := rfl
  have hfile : twoFiles.outcome innerName = .contents innerFile := rfl
  have hline : includedFile [105, 110, 99, 108, 117, 100, 101, 32, 100] = some innerName := by
    decide
  obtain ⟨expanded, -, hunique, hparse⟩ := parseConfigFile_grammar twoFiles_wellformed houter
  have hinner : Expansion twoFiles (textLines innerFile) (textLines innerFile) :=
    .plain (by decide) (.plain (by decide) .nil)
  have hexpand : Expansion twoFiles (textLines outerFile)
      ([97, 61, 49] :: (textLines innerFile ++ [[35, 99, 32, 51]])) :=
    .plain (by decide) (.inclusion hline hfile hinner (.plain (by decide) .nil))
  obtain rfl := hunique _ hexpand
  obtain ⟨configMap, hreturns, hsame⟩ :=
    hparse (by decide) twoFiles twoFiles_wellformed (Reordered.refl _)
  exact ⟨configMap, hreturns, hsame⟩

end ThriftProxy
