import ImportAtlas.Index.Basic
import ImportAtlas.Proofs.Index.Keyed
import ImportAtlas.Proofs.Text.Pieces
import Mathlib.Data.List.Induction

/-!
# Top-level names

A dotted name falls into its leading dots, the component behind them and the
rest (`NameParts`). The top-level name is the first two of these, and so the
longest prefix of the name that has one component. It is also what the byte
positions of these parts cut out, which lie between characters whatever the
characters are. Taking it again changes nothing, so the names of an index stand
for themselves.
-/

namespace ImportAtlas

/-! ## Components -/

/-- Any number of dots, and then none. -/
def OneComponent (chars : List Char) : Prop :=
  ∃ level first, chars = List.replicate level '.' ++ first ∧ '.' ∉ first

/-- The leading dots of a dotted name, the component behind them, and the rest. -/
structure NameParts (chars : List Char) (level : Nat) (first rest : List Char) : Prop where
  chars_eq : chars = List.replicate level '.' ++ (first ++ rest)
  first_free : '.' ∉ first
  rest_eq : rest = [] ∨ first ≠ [] ∧ ∃ more, rest = '.' :: more

theorem exists_nameParts (chars : List Char) :
    ∃ level first rest, NameParts chars level first rest := by
  induction chars with
  | nil => exact ⟨0, [], [], rfl, List.not_mem_nil, .inl rfl⟩
  | cons c chars ih =>
    by_cases hc : c = '.'
    · obtain ⟨level, first, rest, hparts⟩ := ih
      refine ⟨level + 1, first, rest, ?_, hparts.first_free, hparts.rest_eq⟩
      rw [hc, List.replicate_succ, List.cons_append, ← hparts.chars_eq]
    · -- No dot leads, so the component ends at the first dot, if there is one.
      by_cases hmem : '.' ∈ c :: chars
      · obtain ⟨first, more, hsplit, hfree⟩ := List.eq_append_cons_of_mem hmem
        refine ⟨0, first, '.' :: more, hsplit, hfree, .inr ⟨?_, more, rfl⟩⟩
        rintro rfl
        exact hc (List.cons.inj hsplit).1
      · exact ⟨0, c :: chars, [], (List.append_nil _).symm, hmem, .inl rfl⟩

theorem beq_of_mem_dots (level : Nat) : ∀ c ∈ List.replicate level '.', (c == '.') = true := by
  simp

theorem topLevelChars_replicate (level : Nat) (chars : List Char) :
    topLevelChars (List.replicate level '.' ++ chars) =
      List.replicate level '.' ++ topLevelChars chars := by
  rw [topLevelChars, List.takeWhile_append_of_pos (beq_of_mem_dots level),
    List.dropWhile_append_of_pos (beq_of_mem_dots level), List.append_assoc, ← topLevelChars]

theorem topLevelChars_append {first : List Char} (hfree : '.' ∉ first) (hne : first ≠ [])
    (rest : List Char) :
    topLevelChars (first ++ rest) = first ++ rest.takeWhile (· != '.') := by
  have hkept : ∀ c ∈ first, (c != '.') = true := by
    intro c hc
    rw [bne, Text.beq_of_notMem hfree c hc, Bool.not_false]
  obtain ⟨c, tail, rfl⟩ := List.exists_cons_of_ne_nil hne
  have hc : (c == '.') = false := Text.beq_of_notMem hfree c List.mem_cons_self
  rw [topLevelChars, List.cons_append, List.takeWhile_cons, List.dropWhile_cons, hc,
    if_neg Bool.false_ne_true, if_neg Bool.false_ne_true, List.nil_append, ← List.cons_append,
    List.takeWhile_append_of_pos hkept]

/-- A prefix of one component is a prefix of the top-level name. -/
theorem prefix_topLevelChars {candidate chars : List Char} (hinit : candidate <+: chars)
    (hone : OneComponent candidate) : candidate <+: topLevelChars chars := by
  obtain ⟨rest, rfl⟩ := hinit
  obtain ⟨level, first, rfl, hfree⟩ := hone
  rw [List.append_assoc, topLevelChars_replicate, List.prefix_append_right_inj]
  by_cases hne : first = []
  · rw [hne]
    exact List.nil_prefix
  · rw [topLevelChars_append hfree hne]
    exact List.prefix_append _ _

namespace NameParts

variable {chars first rest : List Char} {level : Nat}

theorem rest_eq_nil (hparts : NameParts chars level [] rest) : rest = [] := by
  rcases hparts.rest_eq with hrest | ⟨hne, -⟩
  · exact hrest
  · exact absurd rfl hne

theorem topLevelChars_eq (hparts : NameParts chars level first rest) :
    topLevelChars chars = List.replicate level '.' ++ first := by
  rw [hparts.chars_eq, topLevelChars_replicate]
  congr 1
  by_cases hne : first = []
  · subst hne
    rw [hparts.rest_eq_nil]
    rfl
  · have hstop : rest.takeWhile (· != '.') = [] := by
      rcases hparts.rest_eq with rfl | ⟨-, more, rfl⟩ <;> rfl
    rw [topLevelChars_append hparts.first_free hne, hstop, List.append_nil]

theorem replicate_prefix_iff (hparts : NameParts chars level first rest) (count : Nat) :
    List.replicate count '.' <+: chars ↔ count ≤ level := by
  constructor
  · intro hinit
    have hone : OneComponent (List.replicate count '.') :=
      ⟨count, [], (List.append_nil _).symm, List.not_mem_nil⟩
    have hcount := (prefix_topLevelChars hinit hone).sublist.count_le '.'
    rw [hparts.topLevelChars_eq, List.count_append, List.count_replicate_self,
      List.count_replicate_self, List.count_eq_zero_of_not_mem hparts.first_free] at hcount
    exact hcount
  · intro hle
    rw [hparts.chars_eq, ← Nat.add_sub_cancel' hle, ← List.replicate_append_replicate,
      List.append_assoc]
    exact List.prefix_append _ _

theorem dropWhile_eq (hparts : NameParts chars level first rest) :
    chars.dropWhile (· == '.') = first ++ rest := by
  rw [hparts.chars_eq, List.dropWhile_append_of_pos (beq_of_mem_dots level)]
  cases first with
  | nil =>
    rw [hparts.rest_eq_nil]
    rfl
  | cons c tail =>
    have hc : (c == '.') = false := Text.beq_of_notMem hparts.first_free c List.mem_cons_self
    rw [List.cons_append, List.dropWhile_cons, hc, if_neg Bool.false_ne_true]

theorem head?_pieces (hparts : NameParts chars level first rest) :
    (Text.pieces '.' (first ++ rest)).head? = some first := by
  rcases hparts.rest_eq with rfl | ⟨-, more, rfl⟩
  · rw [List.append_nil, Text.pieces_of_notMem hparts.first_free]
    rfl
  · rw [Text.pieces_append_cons hparts.first_free]
    rfl

end NameParts

theorem topLevelChars_prefix_self (chars : List Char) : topLevelChars chars <+: chars := by
  obtain ⟨level, first, rest, hparts⟩ := exists_nameParts chars
  refine ⟨rest, ?_⟩
  rw [hparts.topLevelChars_eq, List.append_assoc, ← hparts.chars_eq]

theorem oneComponent_topLevelChars (chars : List Char) : OneComponent (topLevelChars chars) := by
  obtain ⟨level, first, rest, hparts⟩ := exists_nameParts chars
  exact ⟨level, first, hparts.topLevelChars_eq, hparts.first_free⟩

theorem topLevelChars_eq_self_iff {chars : List Char} :
    topLevelChars chars = chars ↔ OneComponent chars := by
  constructor
  · intro heq
    rw [← heq]
    exact oneComponent_topLevelChars chars
  · intro hone
    have hle := (prefix_topLevelChars List.prefix_rfl hone).length_le
    exact (topLevelChars_prefix_self chars).eq_of_length_le hle

instance (chars : List Char) : Decidable (OneComponent chars) :=
  decidable_of_iff (topLevelChars chars = chars) topLevelChars_eq_self_iff

theorem toList_topLevelName (dotted : String) :
    (topLevelName dotted).toList = topLevelChars dotted.toList :=
  String.toList_ofList

theorem topLevelName_topLevelName (dotted : String) :
    topLevelName (topLevelName dotted) = topLevelName dotted := by
  rw [topLevelName, toList_topLevelName,
    topLevelChars_eq_self_iff.2 (oneComponent_topLevelChars dotted.toList), topLevelName]

theorem topLevelName_or_append (dotted : String) :
    dotted = topLevelName dotted ∨ ∃ more, dotted = topLevelName dotted ++ "." ++ more := by
  obtain ⟨level, first, rest, hparts⟩ := exists_nameParts dotted.toList
  have hchars : dotted.toList = (topLevelName dotted).toList ++ rest := by
    rw [toList_topLevelName, hparts.topLevelChars_eq, List.append_assoc, ← hparts.chars_eq]
  rcases hparts.rest_eq with rfl | ⟨-, more, rfl⟩
  · rw [List.append_nil] at hchars
    exact .inl (String.toList_inj.1 hchars)
  · refine .inr ⟨String.ofList more, String.toList_inj.1 ?_⟩
    simp [hchars]

/-! ## Byte positions -/

/-- The text between two byte positions, if both lie between characters. -/
def Text.slice? (text : String) (start stop : Nat) : Option String :=
  if h : (String.Pos.Raw.mk start).IsValid text ∧ (String.Pos.Raw.mk stop).IsValid text ∧
      start ≤ stop then
    some (@String.extract text ⟨⟨start⟩, h.1⟩ ⟨⟨stop⟩, h.2.1⟩)
  else none

theorem Text.slice?_eq_some {whole : String} (before text after : String) {start stop : Nat}
    (hwhole : whole = before ++ text ++ after) (hstart : start = before.utf8ByteSize)
    (hstop : stop = start + text.utf8ByteSize) : Text.slice? whole start stop = some text := by
  have hend : stop = (before ++ text).utf8ByteSize := by
    rw [String.utf8ByteSize_append, hstop, hstart]
  have hfirst : (String.Pos.Raw.mk start).IsValid whole := by
    apply String.Pos.Raw.isValid_iff_exists_append.2 ⟨before, text ++ after, ?_, ?_⟩
    · rw [hwhole, String.append_assoc]
    · rw [hstart]
      rfl
  have hlast : (String.Pos.Raw.mk stop).IsValid whole := by
    apply String.Pos.Raw.isValid_iff_exists_append.2 ⟨before ++ text, after, hwhole, ?_⟩
    rw [hend]
    rfl
  have hbytes : whole.toByteArray.extract start stop = text.toByteArray := by
    rw [hwhole, String.toByteArray_append, hend, ← String.size_toByteArray,
      ByteArray.extract_append_size_left, String.toByteArray_append]
    exact ByteArray.extract_append_eq_right hstart ByteArray.size_append
  rw [Text.slice?, dif_pos ⟨hfirst, hlast, by omega⟩, Option.some_inj, ← String.toByteArray_inj,
    String.toByteArray_extract, hbytes]

-- A position inside a character cuts out nothing.
example : Text.slice? "é.x" 0 1 = none := by decide +kernel

/--
The top-level name by byte positions: as many bytes as trimming takes off the
start, and those of the first piece of what is left.
-/
def topLevelSlice? (dotted : String) : Option String := do
  let trimmed := String.ofList (dotted.toList.dropWhile (· == '.'))
  let dots := dotted.utf8ByteSize - trimmed.utf8ByteSize
  let rest ← Text.slice? dotted dots dotted.utf8ByteSize
  let first := ((Text.pieces '.' rest.toList).head?.map String.ofList).getD rest
  Text.slice? dotted 0 (dots + first.utf8ByteSize)

theorem topLevelSlice?_eq (dotted : String) :
    topLevelSlice? dotted = some (topLevelName dotted) := by
  obtain ⟨level, first, rest, hparts⟩ := exists_nameParts dotted.toList
  generalize hdots : String.ofList (List.replicate level '.') = dots
  generalize hbehind : String.ofList (first ++ rest) = behind
  have hdotted : dotted = dots ++ behind := by
    rw [← hdots, ← hbehind, ← String.ofList_append, ← hparts.chars_eq, String.ofList_toList]
  have hname : topLevelName dotted = dots ++ String.ofList first := by
    rw [topLevelName, hparts.topLevelChars_eq, String.ofList_append, hdots]
  have hsize : dotted.utf8ByteSize = dots.utf8ByteSize + behind.utf8ByteSize := by
    rw [hdotted, String.utf8ByteSize_append]
  have hrest : Text.slice? dotted dots.utf8ByteSize dotted.utf8ByteSize = some behind := by
    refine Text.slice?_eq_some dots behind "" ?_ rfl hsize
    rw [String.append_empty, hdotted]
  have hpiece : (Text.pieces '.' behind.toList).head? = some first := by
    rw [← hbehind, String.toList_ofList, hparts.head?_pieces]
  have hcut : Text.slice? dotted 0 (dots.utf8ByteSize + (String.ofList first).utf8ByteSize) =
      some (topLevelName dotted) := by
    refine Text.slice?_eq_some "" (topLevelName dotted) (String.ofList rest) ?_ rfl ?_
    · rw [String.empty_append, hname, String.append_assoc, ← String.ofList_append, hbehind, hdotted]
    · rw [hname, String.utf8ByteSize_append, Nat.zero_add]
  have htrimmed : dotted.utf8ByteSize - behind.utf8ByteSize = dots.utf8ByteSize := by omega
  simp only [topLevelSlice?, hparts.dropWhile_eq, hbehind, htrimmed, hrest, Option.bind_eq_bind,
    Option.bind_some, hpiece, Option.map_some, Option.getD_some, hcut]

/-! ## Names in the index -/

namespace ImportIndex

/-- The indexes there are: any that merging files and noting unreadable ones lead to. -/
inductive Built : ImportIndex → Prop
  | empty : Built empty
  | merge {index : ImportIndex} (ignore : List String) (path : Path)
      (outcome : Except Error ScanResult) :
      Built index → Built (index.merge ignore path outcome)
  | addUnreadable {index : ImportIndex} (unreadable : List (Path × Error)) :
      Built index → Built (index.addUnreadable unreadable)

def TopLevelNames (modules : ModuleFiles) : Prop :=
  ∀ entry ∈ modules.entries, topLevelName entry.1 = entry.1

theorem TopLevelNames.step {modules : ModuleFiles} (hnames : TopLevelNames modules)
    (ignore : List String) (path : Path) (record : ImportRecord) :
    TopLevelNames (addRecord ignore path modules record) := by
  intro entry hmem
  rw [addRecord] at hmem
  split at hmem
  · exact hnames entry hmem
  · rcases Keyed.mem_alter hmem with hold | ⟨hkey, -⟩ | ⟨files, hold, -⟩
    · exact hnames entry hold
    · rw [hkey]
      exact topLevelName_topLevelName record.module
    · exact hnames (entry.1, files) hold

theorem TopLevelNames.run {modules : ModuleFiles} (hnames : TopLevelNames modules)
    (ignore : List String) (path : Path) (records : List ImportRecord) :
    TopLevelNames (records.foldl (addRecord ignore path) modules) := by
  induction records generalizing modules with
  | nil => exact hnames
  | cons record records ih => exact ih (hnames.step ignore path record)

theorem Built.topLevelNames {index : ImportIndex} (h : index.Built) :
    TopLevelNames index.modules := by
  induction h with
  | empty => exact fun _ hmem => nomatch hmem
  | merge ignore path outcome _ ih =>
    cases outcome with
    | error error => exact ih
    | ok result => exact ih.run ignore path result.records
  | addUnreadable unreadable _ ih => exact ih

theorem built_ofOutcomes (ignore : List String)
    (outcomes : List (Path × Except Error ScanResult)) : (ofOutcomes ignore outcomes).Built := by
  rw [ofOutcomes]
  induction outcomes using List.reverseRecOn with
  | nil => exact .empty
  | append_singleton front last ih =>
    rw [List.foldl_append]
    exact .merge ignore last.1 last.2 ih

end ImportIndex

theorem Scanner.built_scanFiles (scanner : Scanner) (tree : FileTree) (files : List Path) :
    (scanner.scanFiles tree files).Built :=
  ImportIndex.built_ofOutcomes _ _

/--
The top-level name of any dotted name is the longest prefix of one component: all
its leading dots and what follows up to a dot or the end. Byte positions cut it
out, as both ends lie between characters. It is its own top-level name, and so is
every name in an index, among them the indexes that scanning makes.
-/
theorem topLevelName_longest_component :
    (∀ dotted : String,
      let name := topLevelName dotted
      (name.toList <+: dotted.toList ∧ OneComponent name.toList ∧
        ∀ candidate : String, candidate.toList <+: dotted.toList →
          OneComponent candidate.toList → candidate.toList <+: name.toList) ∧
      (∃ level first, name.toList = List.replicate level '.' ++ first ∧ '.' ∉ first ∧
        ∀ count, List.replicate count '.' <+: dotted.toList ↔ count ≤ level) ∧
      (dotted = name ∨ ∃ more, dotted = name ++ "." ++ more) ∧
      topLevelSlice? dotted = some name ∧
      topLevelName name = name) ∧
    (∀ index : ImportIndex, index.Built → ∀ name ∈ index.names, topLevelName name = name) ∧
    ∀ (scanner : Scanner) (tree : FileTree) (files : List Path) (unreadable : List (Path × Error)),
      ((scanner.scanFiles tree files).addUnreadable unreadable).Built := by
  refine ⟨?_, ?_, ?_⟩
  · intro dotted name
    have hname : name.toList = topLevelChars dotted.toList := toList_topLevelName dotted
    refine ⟨⟨?_, ?_, ?_⟩, ?_, ?_, topLevelSlice?_eq dotted, topLevelName_topLevelName dotted⟩
    · rw [hname]
      exact topLevelChars_prefix_self dotted.toList
    · rw [hname]
      exact oneComponent_topLevelChars dotted.toList
    · intro candidate hinit hone
      rw [hname]
      exact prefix_topLevelChars hinit hone
    · obtain ⟨level, first, rest, hparts⟩ := exists_nameParts dotted.toList
      exact ⟨level, first, hname.trans hparts.topLevelChars_eq, hparts.first_free,
        hparts.replicate_prefix_iff⟩
    · exact topLevelName_or_append dotted
  · intro index hbuilt name hmem
    obtain ⟨entry, hentry, rfl⟩ := List.mem_map.1 hmem
    exact hbuilt.topLevelNames entry hentry
  · intro scanner tree files unreadable
    exact .addUnreadable unreadable (scanner.built_scanFiles tree files)

/-- Names of several dots in a row and of characters that take more than a byte. -/
def spelledIndex : ImportIndex :=
  (ImportIndex.empty.merge ["os"] ⟨"a.py"⟩ (.ok {
    records := [⟨1, none, "..größe.maß", some ["b"], .relative 2⟩,
      ⟨2, none, "os.path", none, .implicit⟩, ⟨3, none, "é..x.", none, .absolute⟩,
      ⟨4, none, "...", some ["c"], .relative 3⟩] })).addUnreadable []

theorem topLevelName_longest_component_spelledIndex :
    spelledIndex.Built ∧
    spelledIndex.names = ["...", "..größe", "é"] ∧
    (∀ name ∈ spelledIndex.names, topLevelName name = name) ∧
    topLevelName "..größe.maß" = "..größe" ∧
    topLevelSlice? "..größe.maß" = some "..größe" ∧
    ("..grö".toList <+: "..größe.maß".toList ∧ OneComponent "..grö".toList ∧
      "..grö".toList <+: "..größe".toList) := by
  obtain ⟨hdotted, hindex, -⟩ := topLevelName_longest_component
  obtain ⟨⟨-, -, hlongest⟩, -, -, hslice, -⟩ := hdotted "..größe.maß"
  have hbuilt : spelledIndex.Built := .addUnreadable [] (.merge ["os"] _ _ .empty)
  have hname : topLevelName "..größe.maß" = "..größe" := by decide +kernel
  have hinit : "..grö".toList <+: "..größe.maß".toList := by decide +kernel
  have hone : OneComponent "..grö".toList := by decide +kernel
  rw [hname] at hslice hlongest
  exact ⟨hbuilt, by decide +kernel, hindex spelledIndex hbuilt, hname, hslice, hinit, hone,
    hlongest "..grö" hinit hone⟩

end ImportAtlas
