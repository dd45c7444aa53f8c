import ImportAtlas.Container.Basic
import ImportAtlas.Proofs.Container.Storable
import ImportAtlas.Proofs.Except

/-!
# Storing and loading

What a written container loads to. Writing an object appends bytes from which
recursive descent reads the object back, if it is storable; and since decoding
yields storable constants only, the round trip holds exactly for the units that
are storable under the marker of the format they are loaded for.
-/

namespace ImportAtlas.Container

open Writer Reader Descent

/-! ## Bytes that are appended -/

/-- Writing went from `out` to `next` by appending `bytes`. -/
def Wrote (out next : Output) (bytes : Bytes) : Prop :=
  next.toList = out.toList ++ bytes

theorem Wrote.trans {out middle next : Output} {front back : Bytes}
    (hfront : Wrote out middle front)
    (hback : Wrote middle next back) : Wrote out next (front ++ back) := by
  unfold Wrote at *
  rw [hback, hfront, List.append_assoc]

theorem wrote_putTag (tag : Tag) (out : Output) : Wrote out (putTag tag out) [tag.toByte] := by
  simp [Wrote, putTag]

theorem wrote_putBytes (bytes : Bytes) (out : Output) : Wrote out (putBytes bytes out) bytes := by
  simp [Wrote, putBytes]

theorem wrote_putLength {count : Nat} {out next : Output} (h : putLength count out = .ok next) :
    count < countLimit ∧ Wrote out next (Word.encode 4 count) := by
  unfold putLength at h
  split at h
  · rename_i hcount
    cases h
    exact ⟨hcount, wrote_putBytes _ _⟩
  · cases h

theorem wrote_putString {raw : Bytes} {out next : Output} (h : putString raw out = .ok next) :
    raw.length < countLimit ∧
      Wrote out next ([(Tag.string .inline).toByte] ++ (Word.encode 4 raw.length ++ raw)) := by
  obtain ⟨counted, hcounted, hnext⟩ := except_bind_eq_ok h
  cases hnext
  obtain ⟨hcount, hlength⟩ := wrote_putLength hcounted
  exact ⟨hcount, (wrote_putTag _ _).trans (hlength.trans (wrote_putBytes _ _))⟩

theorem wrote_putFirstLine {line : UInt32} {out next : Output}
    (h : putFirstLine line out = .ok next) :
    line.toNat < countLimit ∧ Wrote out next (Word.encode 4 line.toNat) := by
  unfold putFirstLine at h
  split at h
  · rename_i hline
    cases h
    exact ⟨hline, wrote_putBytes _ _⟩
  · cases h

/-! ## Objects that are read back -/

/-- The bytes of an object are its type code and what its body reads. -/
theorem reads_objectAt {marker : UInt16} {depth : Nat} {tag : Tag} {bytes : Bytes}
    {value : Constant} (hdepth : depth < maxDepth)
    (h : Reads (body marker (objectAt marker (depth + 1)) tag) bytes value) :
    Reads (objectAt marker depth).read ([tag.toByte] ++ bytes) value := by
  rw [objectAt_of_lt marker hdepth]
  refine (Reads.byte _).bind ?_
  rw [Tag.ofByte?_toByte]
  exact h

/-- Writing went from `out` to `next` by bytes that are read back as `constant`, wherever that
is storable. -/
def Restores (out next : Output) (constant : Constant) : Prop :=
  ∃ bytes, Wrote out next bytes ∧ ∀ marker depth, Storable marker depth constant →
    Reads (objectAt marker depth).read bytes constant

theorem Restores.of_body {out next : Output} {constant : Constant} {tag : Tag} {bytes : Bytes}
    (hwrote : Wrote out next ([tag.toByte] ++ bytes))
    (hreads : ∀ marker depth, Storable marker depth constant →
      Reads (body marker (objectAt marker (depth + 1)) tag) bytes constant) :
    Restores out next constant :=
  ⟨_, hwrote, fun marker depth h => reads_objectAt h.depth_lt (hreads marker depth h)⟩

theorem restores_putTag (tag : Tag) (out : Output) {constant : Constant}
    (hbody : ∀ marker member, body marker member tag = pure constant) :
    Restores out (putTag tag out) constant := by
  have hwrote : Wrote out (putTag tag out) ([tag.toByte] ++ []) := wrote_putTag tag out
  refine .of_body hwrote fun marker depth _ => ?_
  rw [hbody]
  exact Reads.pure constant

theorem restores_putInt (value : Int64) (out : Output) :
    Restores out (putInt value out) (.int value) := by
  unfold putInt
  split
  · rename_i hshort
    refine .of_body ((wrote_putTag _ _).trans (wrote_putBytes _ _)) fun marker depth _ => ?_
    have h := (Reads.int32 value.toInt32).map fun read => Constant.int read.toInt64
    rwa [hshort] at h
  · refine .of_body ((wrote_putTag _ _).trans (wrote_putBytes _ _)) fun marker depth _ => ?_
    exact (Reads.int64 value).map Constant.int

def signedCount (negative : Bool) (count : Nat) : Int32 :=
  if negative then -Int32.ofNat count else Int32.ofNat count

theorem toInt_signedCount {count : Nat} (hcount : count < countLimit) (negative : Bool) :
    (signedCount negative count).toInt = if negative then -(count : Int) else count := by
  have hofNat := Reads.toInt_ofNat hcount
  unfold countLimit at hcount
  cases negative with
  | false => exact hofNat
  | true =>
    simp only [signedCount, if_true, Int32.toInt_neg, hofNat]
    rw [Int.bmod_eq_of_le (by omega) (by omega)]

theorem natAbs_signedCount {count : Nat} (hcount : count < countLimit) (negative : Bool) :
    (signedCount negative count).toInt.natAbs = count := by
  rw [toInt_signedCount hcount]
  cases negative <;> simp

theorem signedCount_neg_iff {count : Nat} (hcount : count < countLimit) {negative : Bool}
    (hzero : negative = true → count ≠ 0) : signedCount negative count < 0 ↔ negative = true := by
  rw [Int32.lt_iff_toInt_lt, toInt_signedCount hcount, Int32.toInt_zero]
  cases negative with
  | false => simp
  | true =>
    have hpos := hzero rfl
    simp only [if_true, iff_true]
    omega

theorem length_flatMap_encode (digits : List UInt16) :
    (digits.flatMap fun digit => Word.encode 2 digit.toNat).length = 2 * digits.length := by
  induction digits with
  | nil => rfl
  | cons digit digits ih =>
    rw [List.flatMap_cons, List.length_append, Word.length_encode, ih, List.length_cons]
    omega

theorem reads_long {negative : Bool} {digits : List UInt16} (hcount : digits.length < countLimit)
    (hzero : negative = true → digits.length ≠ 0) :
    Reads Reader.long
      (Word.ofInt32 (signedCount negative digits.length) ++
        digits.flatMap fun digit => Word.encode 2 digit.toNat)
      (.long negative digits) := by
  refine (Reads.int32 _).bind ?_
  have hraw := (Reads.take (length_flatMap_encode digits)).map
    fun raw => Constant.long negative (Word.pairs raw)
  have hnegative : decide (signedCount negative digits.length < 0) = negative := by
    simp only [signedCount_neg_iff hcount hzero, Bool.decide_eq_true]
  rw [natAbs_signedCount hcount, hnegative]
  rwa [Word.pairs_flatMap] at hraw

theorem restores_putLong {negative : Bool} {digits : List UInt16} {out next : Output}
    (h : putLong negative digits out = .ok next) : Restores out next (.long negative digits) := by
  unfold putLong at h
  simp only at h
  split at h
  · rename_i hcount
    cases h
    have hwrote := (wrote_putTag .long out).trans
      ((wrote_putBytes (Word.ofInt32 (signedCount negative digits.length)) _).trans
        (wrote_putBytes (digits.flatMap fun digit => Word.encode 2 digit.toNat) _))
    refine .of_body hwrote fun marker depth hstorable => reads_long hcount (fun hnegative => ?_)
    rintro hlength
    rw [hnegative, List.length_eq_zero_iff.mp hlength] at hstorable
    exact hstorable.signed 0 .root
  · cases h

theorem restores_float (value : Binary64) (out : Output) :
    Restores out (putBinary64 value (putTag .float out)) (.float value) := by
  refine .of_body ((wrote_putTag _ _).trans (wrote_putBytes _ _)) fun marker depth _ => ?_
  exact (Reads.binary64 value).map Constant.float

theorem restores_complex (real imaginary : Binary64) (out : Output) :
    Restores out (putBinary64 imaginary (putBinary64 real (putTag .complex out)))
      (.complex real imaginary) := by
  refine .of_body ((wrote_putTag _ _).trans ((wrote_putBytes _ _).trans (wrote_putBytes _ _)))
    fun marker depth _ => ?_
  exact (Reads.binary64 real).bind ((Reads.binary64 imaginary).map (Constant.complex real))

theorem restores_str {text : String} {out next : Output}
    (h : putString (Utf8.encode text) out = .ok next) : Restores out next (.str text) := by
  obtain ⟨hcount, hwrote⟩ := wrote_putString h
  refine .of_body hwrote fun marker depth _ => ?_
  have hreads := (Reads.stringBody hcount).map fun raw => Constant.str (Utf8.decodeLossy raw)
  rwa [Utf8.decodeLossy_encode] at hreads

theorem restores_unicode {text : String} {out counted : Output}
    (h : putLength (Utf8.encode text).length (putTag .unicode out) = .ok counted) :
    Restores out (putBytes (Utf8.encode text) counted) (.unicode text) := by
  obtain ⟨hcount, hlength⟩ := wrote_putLength h
  refine .of_body ((wrote_putTag _ _).trans (hlength.trans (wrote_putBytes _ _)))
    fun marker depth _ => ?_
  have htake : Reads (take (Utf8.encode text).length) (Utf8.encode text) (Utf8.encode text) :=
    Reads.take rfl
  have hraw := htake.map fun raw => Constant.unicode (Utf8.decodeLossy raw)
  rw [Utf8.decodeLossy_encode] at hraw
  exact (Reads.length hcount).bind hraw

/-! ## Members -/

def RestoresItems (out next : Output) (items : List Constant) : Prop :=
  ∃ bytes, Wrote out next bytes ∧ ∀ marker depth, (∀ item ∈ items, Storable marker depth item) →
    Reads (members (objectAt marker depth) items.length) bytes items

theorem restoresItems_nil (out : Output) : RestoresItems out out [] := by
  refine ⟨[], by simp [Wrote], fun marker depth _ => ?_⟩
  exact Reads.pure []

theorem Restores.cons {out middle next : Output} {item : Constant} {items : List Constant}
    (hitem : Restores out middle item) (hitems : RestoresItems middle next items) :
    RestoresItems out next (item :: items) := by
  obtain ⟨front, hfront, hreads⟩ := hitem
  obtain ⟨back, hback, hrest⟩ := hitems
  refine ⟨front ++ back, hfront.trans hback, fun marker depth hstorable => ?_⟩
  obtain ⟨hitem, hitems⟩ := List.forall_mem_cons.mp hstorable
  exact (hreads marker depth hitem).bind ((hrest marker depth hitems).map (item :: ·))

theorem RestoresItems.sequence {kind : SequenceKind} {items : List Constant}
    {out counted next : Output}
    (hcounted : putLength items.length (putTag (.sequence kind) out) = .ok counted)
    (hitems : RestoresItems counted next items) : Restores out next (kind.build items) := by
  obtain ⟨hcount, hlength⟩ := wrote_putLength hcounted
  obtain ⟨bytes, hwrote, hreads⟩ := hitems
  refine .of_body ((wrote_putTag _ _).trans (hlength.trans hwrote)) fun marker depth hstorable => ?_
  have hmembers : ∀ item ∈ items, Storable marker (depth + 1) item := fun item hitem =>
    hstorable.part (by rwa [parts_build])
  exact (Reads.length hcount).bind ((hreads marker (depth + 1) hmembers).map kind.build)

theorem restoresItems_names {names : List String} {out next : Output}
    (h : putNameEntries names out = .ok next) : RestoresItems out next (names.map .str) := by
  induction names generalizing out with
  | nil =>
    cases h
    exact restoresItems_nil _
  | cons name names ih =>
    obtain ⟨middle, hname, hnames⟩ := except_bind_eq_ok h
    exact (restores_str hname).cons (ih hnames)

theorem restores_putNames {names : List String} {out next : Output}
    (h : putNames names out = .ok next) : Restores out next (nameTuple names) := by
  obtain ⟨counted, hcounted, hnames⟩ := except_bind_eq_ok h
  have hitems := restoresItems_names hnames
  rw [← List.length_map Constant.str] at hcounted
  exact hitems.sequence hcounted

/-- The bytes an object is read from do not start like the end of a dictionary. -/
theorem not_null_of_reads {marker : UInt16} {depth : Nat} {bytes : Bytes} {value : Constant}
    (h : Reads (objectAt marker depth).read bytes value) :
    ∃ first rest, bytes = first :: rest ∧ first ≠ Tag.null.toByte := by
  have hread := h [] 0 #[]
  cases bytes with
  | nil => exact absurd ((objectAt marker depth).consumes hread) (Nat.lt_irrefl _)
  | cons first rest =>
    refine ⟨first, rest, rfl, ?_⟩
    rintro rfl
    rcases Nat.lt_or_ge depth maxDepth with hlt | hge
    · rw [objectAt_of_lt marker hlt] at hread
      obtain ⟨code, next, hcode, hbody⟩ := bind_eq_ok hread
      cases hcode
      exact absurd hbody not_fail_eq_ok
    · rw [objectAt_of_ge marker hge] at hread
      exact absurd hread not_fail_eq_ok

theorem reads_skip?_null : Reads (skip? Tag.null.toByte) [Tag.null.toByte] true := by
  intro tail position interned
  rfl

theorem reads_entries_nil (member : Consumer Constant) :
    Reads (entries member) [Tag.null.toByte] [] := by
  rw [entries_eq]
  exact reads_skip?_null.bind (Reads.pure [])

theorem reads_entries_cons {marker : UInt16} {depth : Nat} {front middle back : Bytes}
    {key value : Constant} {pairs : List (Constant × Constant)}
    (hkey : Reads (objectAt marker depth).read front key)
    (hvalue : Reads (objectAt marker depth).read middle value)
    (hpairs : Reads (entries (objectAt marker depth)) back pairs) :
    Reads (entries (objectAt marker depth)) (front ++ (middle ++ back))
      ((key, value) :: pairs) := by
  obtain ⟨first, rest, hfront, hfirst⟩ := not_null_of_reads hkey
  rw [entries_eq]
  intro tail position interned
  have hskip : skip? Tag.null.toByte ⟨front ++ (middle ++ back) ++ tail, position, interned⟩ =
      .ok (false, ⟨front ++ (middle ++ back) ++ tail, position, interned⟩) := by
    simp [skip?, hfront, hfirst]
  rw [bind_of_ok hskip]
  exact (hkey.bind (hvalue.bind (hpairs.map ((key, value) :: ·)))) tail position interned

def RestoresEntries (out next : Output) (pairs : List (Constant × Constant)) : Prop :=
  ∃ bytes, Wrote out next bytes ∧ ∀ marker depth,
    (∀ pair ∈ pairs, Storable marker depth pair.1 ∧ Storable marker depth pair.2) →
      Reads (entries (objectAt marker depth)) (bytes ++ [Tag.null.toByte]) pairs

theorem restoresEntries_nil (out : Output) : RestoresEntries out out [] :=
  ⟨[], by simp [Wrote], fun _ _ _ => reads_entries_nil _⟩

theorem RestoresEntries.cons {out afterKey afterValue next : Output} {key value : Constant}
    {pairs : List (Constant × Constant)} (hkey : Restores out afterKey key)
    (hvalue : Restores afterKey afterValue value) (hpairs : RestoresEntries afterValue next pairs) :
    RestoresEntries out next ((key, value) :: pairs) := by
  obtain ⟨front, hfront, hreadsKey⟩ := hkey
  obtain ⟨middle, hmiddle, hreadsValue⟩ := hvalue
  obtain ⟨back, hback, hreadsPairs⟩ := hpairs
  refine ⟨front ++ (middle ++ back), hfront.trans (hmiddle.trans hback), fun marker depth h => ?_⟩
  obtain ⟨⟨hkey, hvalue⟩, hpairs⟩ := List.forall_mem_cons.mp h
  rw [List.append_assoc, List.append_assoc]
  exact reads_entries_cons (hreadsKey marker depth hkey) (hreadsValue marker depth hvalue)
    (hreadsPairs marker depth hpairs)

theorem RestoresEntries.dict {out next : Output} {pairs : List (Constant × Constant)}
    (h : RestoresEntries (putTag .dict out) next pairs) :
    Restores out (putTag .null next) (.dict pairs) := by
  obtain ⟨bytes, hwrote, hreads⟩ := h
  refine .of_body ((wrote_putTag _ _).trans (hwrote.trans (wrote_putTag _ _)))
    fun marker depth hstorable => (hreads marker (depth + 1) fun pair hpair => ?_).map Constant.dict
  have hpart (part : Constant) (hmem : part ∈ [pair.1, pair.2]) :
      Storable marker (depth + 1) part :=
    hstorable.part (List.mem_flatMap.mpr ⟨pair, hpair, hmem⟩)
  exact ⟨hpart pair.1 (by simp), hpart pair.2 (by simp)⟩

/-! ## Code objects -/

theorem reads_nameTable (names : List String) : Reads (nameTable (nameTuple names)) [] names := by
  intro tail position interned
  change (names.map Constant.str).mapM nameEntry _ = _
  have hmapM : (names.map Constant.str).mapM nameEntry = (pure names : Reader (List String)) := by
    induction names with
    | nil => rfl
    | cons name names ih =>
      rw [List.map_cons, List.mapM_cons, ih]
      rfl
  rw [hmapM]
  rfl

theorem reads_string {text : String} (hcount : (Utf8.encode text).length < countLimit) :
    Reads Reader.string
      ([(Tag.string .inline).toByte]
        ++ (Word.encode 4 (Utf8.encode text).length ++ Utf8.encode text))
      text := by
  have h := (Reads.rawString hcount).map Utf8.decodeLossy
  rwa [Utf8.decodeLossy_encode] at h

theorem reads_codeTail {unit : CodeUnit} {filename name firstLine lnotab : Bytes}
    (hfilename : Reads Reader.string filename unit.filename)
    (hname : Reads Reader.string name unit.name)
    (hfirstLine : Reads Reader.firstLine firstLine unit.firstLine)
    (hlnotab : Reads Reader.rawString lnotab unit.lnotab) :
    Reads
      (codeTail unit.marker ⟨unit.argcount, unit.nlocals, unit.stacksize, unit.flags, unit.code⟩
        (.tuple unit.consts) (nameTuple unit.names) (nameTuple unit.varnames)
        (nameTuple unit.freevars) (nameTuple unit.cellvars))
      (filename ++ (name ++ (firstLine ++ lnotab))) unit := by
  -- The tables have been read already: checking them takes no bytes.
  change Reads _
    ([] ++ ([] ++ ([] ++ ([] ++ ([] ++ (filename ++ (name ++ (firstLine ++ lnotab)))))))) _
  refine Reads.bind (Reads.pure unit.consts) <| (reads_nameTable unit.names).bind <|
    (reads_nameTable unit.varnames).bind <| (reads_nameTable unit.freevars).bind <|
    (reads_nameTable unit.cellvars).bind <| hfilename.bind <| hname.bind <| hfirstLine.bind ?_
  have h := hlnotab.map fun lnotab => { unit with lnotab }
  cases unit
  exact h

theorem reads_codeHead {argcount nlocals stacksize flags : Int32} {code bytes : Bytes}
    (hcode : Reads Reader.rawString bytes code) :
    Reads codeHead ([argcount, nlocals, stacksize, flags].flatMap Word.ofInt32 ++ bytes)
      ⟨argcount, nlocals, stacksize, flags, code⟩ := by
  have hbytes : [argcount, nlocals, stacksize, flags].flatMap Word.ofInt32 ++ bytes =
      Word.ofInt32 argcount ++ (Word.ofInt32 nlocals ++
        (Word.ofInt32 stacksize ++ (Word.ofInt32 flags ++ bytes))) := by simp
  rw [hbytes]
  refine (Reads.int32 argcount).bind ?_
  refine (Reads.int32 nlocals).bind ?_
  refine (Reads.int32 stacksize).bind ?_
  refine (Reads.int32 flags).bind ?_
  exact hcode.map (CodeHead.mk argcount nlocals stacksize flags)

theorem reads_code {member : Consumer Constant} {unit : CodeUnit}
    {head consts names varnames freevars cellvars tail : Bytes}
    (hhead : Reads codeHead head
      ⟨unit.argcount, unit.nlocals, unit.stacksize, unit.flags, unit.code⟩)
    (hconsts : Reads member.read consts (.tuple unit.consts))
    (hnames : Reads member.read names (nameTuple unit.names))
    (hvarnames : Reads member.read varnames (nameTuple unit.varnames))
    (hfreevars : Reads member.read freevars (nameTuple unit.freevars))
    (hcellvars : Reads member.read cellvars (nameTuple unit.cellvars))
    (htail : Reads
      (codeTail unit.marker ⟨unit.argcount, unit.nlocals, unit.stacksize, unit.flags, unit.code⟩
        (.tuple unit.consts) (nameTuple unit.names) (nameTuple unit.varnames)
        (nameTuple unit.freevars) (nameTuple unit.cellvars)) tail unit) :
    Reads (body unit.marker member .code)
      (head ++ (consts ++ (names ++ (varnames ++ (freevars ++ (cellvars ++ tail))))))
      (.code unit) := by
  refine hhead.bind ?_
  refine hconsts.bind ?_
  refine hnames.bind ?_
  refine hvarnames.bind ?_
  refine hfreevars.bind ?_
  refine hcellvars.bind ?_
  exact htail.map Constant.code

theorem putUnit_eq (unit : CodeUnit) (out : Output) :
    putUnit unit out = (do
      let out ← putString unit.code (putBytes
        ([unit.argcount, unit.nlocals, unit.stacksize, unit.flags].flatMap Word.ofInt32)
        (putTag .code out))
      let out ← putLength unit.consts.length (putTag (.sequence .tuple) out)
      let out ← putItems unit.consts out
      let out ← putNames unit.names out
      let out ← putNames unit.varnames out
      let out ← putNames unit.freevars out
      let out ← putNames unit.cellvars out
      let out ← putString (Utf8.encode unit.filename) out
      let out ← putString (Utf8.encode unit.name) out
      let out ← putFirstLine unit.firstLine out
      putString unit.lnotab out) := by
  cases unit
  rw [putUnit]

/-- A unit whose constants are read back is read back. -/
theorem restores_putUnit {unit : CodeUnit} {out next : Output}
    (hitems : ∀ {out next : Output}, putItems unit.consts out = .ok next →
      RestoresItems out next unit.consts)
    (h : putUnit unit out = .ok next) : Restores out next (.code unit) := by
  rw [putUnit_eq] at h
  obtain ⟨afterCode, hcode, h⟩ := except_bind_eq_ok h
  obtain ⟨counted, hcounted, h⟩ := except_bind_eq_ok h
  obtain ⟨afterConsts, hconsts, h⟩ := except_bind_eq_ok h
  obtain ⟨afterNames, hnames, h⟩ := except_bind_eq_ok h
  obtain ⟨afterVarnames, hvarnames, h⟩ := except_bind_eq_ok h
  obtain ⟨afterFreevars, hfreevars, h⟩ := except_bind_eq_ok h
  obtain ⟨afterCellvars, hcellvars, h⟩ := except_bind_eq_ok h
  obtain ⟨afterFilename, hfilename, h⟩ := except_bind_eq_ok h
  obtain ⟨afterName, hname, h⟩ := except_bind_eq_ok h
  obtain ⟨afterLine, hline, hlnotab⟩ := except_bind_eq_ok h
  obtain ⟨hcode, codeWrote⟩ := wrote_putString hcode
  have hconsts : Restores afterCode afterConsts (.tuple unit.consts) :=
    (hitems hconsts).sequence hcounted
  obtain ⟨constBytes, constsWrote, hconsts⟩ := hconsts
  obtain ⟨nameBytes, namesWrote, hnames⟩ := restores_putNames hnames
  obtain ⟨varnameBytes, varnamesWrote, hvarnames⟩ := restores_putNames hvarnames
  obtain ⟨freevarBytes, freevarsWrote, hfreevars⟩ := restores_putNames hfreevars
  obtain ⟨cellvarBytes, cellvarsWrote, hcellvars⟩ := restores_putNames hcellvars
  obtain ⟨hfilename, filenameWrote⟩ := wrote_putString hfilename
  obtain ⟨hname, nameWrote⟩ := wrote_putString hname
  obtain ⟨hline, lineWrote⟩ := wrote_putFirstLine hline
  obtain ⟨hlnotab, lnotabWrote⟩ := wrote_putString hlnotab
  have hwrote := (wrote_putTag .code out).trans <|
    ((wrote_putBytes _ _).trans codeWrote).trans <| constsWrote.trans <| namesWrote.trans <|
    varnamesWrote.trans <| freevarsWrote.trans <| cellvarsWrote.trans <| filenameWrote.trans <|
    nameWrote.trans <| lineWrote.trans lnotabWrote
  refine .of_body hwrote fun marker depth hstorable => ?_
  have hmarker : unit.marker = marker := hstorable.marked 0 unit .root
  subst hmarker
  have hparts : ∀ part ∈ parts (.code unit), Storable unit.marker (depth + 1) part :=
    fun part hpart => hstorable.part hpart
  simp only [parts, List.forall_mem_cons] at hparts
  obtain ⟨hconstsPart, hnamesPart, hvarnamesPart, hfreevarsPart, hcellvarsPart, -⟩ := hparts
  exact reads_code (reads_codeHead (Reads.rawString hcode)) (hconsts _ _ hconstsPart)
    (hnames _ _ hnamesPart) (hvarnames _ _ hvarnamesPart) (hfreevars _ _ hfreevarsPart)
    (hcellvars _ _ hcellvarsPart)
    (reads_codeTail (reads_string hfilename) (reads_string hname) (Reads.firstLine hline)
      (Reads.rawString hlnotab))

/-! ## All constants -/

mutual

theorem restores_putConstant : ∀ (constant : Constant) {out next : Output},
    putConstant constant out = .ok next → Restores out next constant
  | .none, out, next, h => by
    rw [putConstant] at h
    obtain rfl := Except.ok.inj h
    exact restores_putTag .none out fun _ _ => rfl
  | .bool value, out, next, h => by
    rw [putConstant] at h
    obtain rfl := Except.ok.inj h
    cases value
    · exact restores_putTag .false out fun _ _ => rfl
    · exact restores_putTag .true out fun _ _ => rfl
  | .stopIteration, out, next, h => by
    rw [putConstant] at h
    obtain rfl := Except.ok.inj h
    exact restores_putTag .stopIteration out fun _ _ => rfl
  | .ellipsis, out, next, h => by
    rw [putConstant] at h
    obtain rfl := Except.ok.inj h
    exact restores_putTag .ellipsis out fun _ _ => rfl
  | .int value, out, next, h => by
    rw [putConstant] at h
    obtain rfl := Except.ok.inj h
    exact restores_putInt value out
  | .long negative digits, out, next, h => by
    rw [putConstant] at h
    exact restores_putLong h
  | .float value, out, next, h => by
    rw [putConstant] at h
    obtain rfl := Except.ok.inj h
    exact restores_float value out
  | .complex real imaginary, out, next, h => by
    rw [putConstant] at h
    obtain rfl := Except.ok.inj h
    exact restores_complex real imaginary out
  | .str text, out, next, h => by
    rw [putConstant] at h
    exact restores_str h
  | .unicode text, out, next, h => by
    rw [putConstant] at h
    obtain ⟨counted, hcounted, h⟩ := except_bind_eq_ok h
    obtain rfl := Except.ok.inj h
    exact restores_unicode hcounted
  | .tuple items, out, next, h => by
    rw [putConstant] at h
    obtain ⟨counted, hcounted, h⟩ := except_bind_eq_ok h
    exact (restoresItems_putItems items h).sequence hcounted
  | .list items, out, next, h => by
    rw [putConstant] at h
    obtain ⟨counted, hcounted, h⟩ := except_bind_eq_ok h
    exact (restoresItems_putItems items h).sequence hcounted
  | .set items, out, next, h => by
    rw [putConstant] at h
    obtain ⟨counted, hcounted, h⟩ := except_bind_eq_ok h
    exact (restoresItems_putItems items h).sequence hcounted
  | .frozenset items, out, next, h => by
    rw [putConstant] at h
    obtain ⟨counted, hcounted, h⟩ := except_bind_eq_ok h
    exact (restoresItems_putItems items h).sequence hcounted
  | .dict pairs, out, next, h => by
    rw [putConstant] at h
    obtain ⟨afterPairs, hpairs, h⟩ := except_bind_eq_ok h
    obtain rfl := Except.ok.inj h
    exact (restoresEntries_putEntries pairs hpairs).dict
  | .code ⟨marker, argcount, nlocals, stacksize, flags, code, consts, names, varnames, freevars,
      cellvars, filename, name, firstLine, lnotab⟩, out, next, h => by
    rw [putConstant] at h
    exact restores_putUnit (fun h => restoresItems_putItems consts h) h

theorem restoresItems_putItems : ∀ (items : List Constant) {out next : Output},
    putItems items out = .ok next → RestoresItems out next items
  | [], out, next, h => by
    rw [putItems] at h
    obtain rfl := Except.ok.inj h
    exact restoresItems_nil out
  | item :: items, out, next, h => by
    rw [putItems] at h
    obtain ⟨middle, hitem, hitems⟩ := except_bind_eq_ok h
    exact (restores_putConstant item hitem).cons (restoresItems_putItems items hitems)

theorem restoresEntries_putEntries : ∀ (pairs : List (Constant × Constant)) {out next : Output},
    putEntries pairs out = .ok next → RestoresEntries out next pairs
  | [], out, next, h => by
    rw [putEntries] at h
    obtain rfl := Except.ok.inj h
    exact restoresEntries_nil out
  | (key, value) :: pairs, out, next, h => by
    rw [putEntries] at h
    obtain ⟨afterKey, hkey, h⟩ := except_bind_eq_ok h
    obtain ⟨afterValue, hvalue, hpairs⟩ := except_bind_eq_ok h
    exact .cons (restores_putConstant key hkey) (restores_putConstant value hvalue)
      (restoresEntries_putEntries pairs hpairs)

end

/-! ## Containers -/

theorem length_render (header : Header) : header.render.length = headerSize := by
  simp [Header.render, headerSize]

theorem parse_render (header : Header) (rest : Bytes) :
    Header.parse (header.render ++ rest) = .ok header := by
  have hmagic : UInt16.ofNat (Word.decode (Word.encode 2 header.magic.toNat)) = header.magic := by
    rw [Word.decode_encode_of_lt header.magic.toNat_lt]
    simp
  have hmtime : UInt32.ofNat (Word.decode (Word.encode 4 header.mtime.toNat)) = header.mtime := by
    rw [Word.decode_encode_of_lt header.mtime.toNat_lt]
    simp
  simp only [Word.encode] at hmagic hmtime
  simp only [Header.parse, Header.render, Word.encode, List.cons_append, List.nil_append, and_self,
    if_true, hmagic, hmtime]

/-- A dumped unit is a header and bytes that are read back as the unit. -/
theorem dump_eq_ok {unit : CodeUnit} {mtime : UInt32} {bytes : Bytes}
    (h : dump unit mtime = .ok bytes) :
    ∃ stored, bytes = Header.render ⟨unit.marker, mtime⟩ ++ stored ∧ ∀ marker depth,
      Storable marker depth (.code unit) →
        Reads (objectAt marker depth).read stored (.code unit) := by
  obtain ⟨out, hout, h⟩ := except_bind_eq_ok h
  obtain rfl := Except.ok.inj h
  obtain ⟨stored, hwrote, hreads⟩ := restores_putConstant (.code unit) hout
  refine ⟨stored, ?_, hreads⟩
  rw [hwrote]
  simp [putBytes]

theorem load_eq_ok {bytes : Bytes} {format : Format} {unit : CodeUnit}
    (h : load bytes format = .ok unit) :
    ∃ next, (objectAt format.magic 0).read ⟨bytes.drop headerSize, headerSize, #[]⟩ =
      .ok (.code unit, next) := by
  obtain ⟨header, _, h⟩ := except_bind_eq_ok h
  obtain ⟨_, hcheck, h⟩ := except_bind_eq_ok h
  obtain ⟨⟨value, next⟩, hobject, h⟩ := except_bind_eq_ok h
  have hmagic : header.magic = format.magic := by
    unfold Format.check at hcheck
    split at hcheck
    · assumption
    · cases hcheck
  rw [object_eq_objectAt, hmagic] at hobject
  refine ⟨next, ?_⟩
  cases value with
  | code found =>
    obtain rfl := Except.ok.inj h
    exact hobject
  | _ => cases h

theorem storable_of_load {bytes : Bytes} {format : Format} {unit : CodeUnit}
    (h : load bytes format = .ok unit) : Storable format.magic 0 (.code unit) := by
  obtain ⟨next, hread⟩ := load_eq_ok h
  exact yields_objectAt format.magic 0 _ _ _ hread

theorem load_of_storable {unit : CodeUnit} {mtime : UInt32} {bytes : Bytes} {format : Format}
    (hdump : dump unit mtime = .ok bytes) (hstorable : Storable format.magic 0 (.code unit)) :
    load bytes format = .ok unit := by
  obtain ⟨stored, rfl, hreads⟩ := dump_eq_ok hdump
  have hmarker : unit.marker = format.magic := hstorable.marked 0 unit .root
  have hdrop : (Header.render ⟨unit.marker, mtime⟩ ++ stored).drop headerSize = stored :=
    List.drop_left' (length_render _)
  have hread := hreads format.magic 0 hstorable [] headerSize #[]
  rw [List.append_nil] at hread
  unfold load
  rw [parse_render, hdrop]
  simp only [bind, Except.bind, Format.check, if_true, object_eq_objectAt, hmarker, hread]

/-- The container of a unit loads to that unit exactly if the unit and all units inside it carry
the magic of the format, no long integer in it is a negative zero, and no object in it opens at
the depth limit. -/
theorem load_dump_iff {unit : CodeUnit} {mtime : UInt32} {bytes : Bytes} (format : Format)
    (hdump : dump unit mtime = .ok bytes) :
    load bytes format = .ok unit ↔
      unit.marker = format.magic ∧
      (∀ depth inner, Opens (.code unit) depth (.code inner) → inner.marker = unit.marker) ∧
      (∀ depth, ¬ Opens (.code unit) depth (.long true [])) ∧
      (∀ depth object, Opens (.code unit) depth object → depth < maxDepth) := by
  constructor
  · intro hload
    have h := storable_of_load hload
    have hmarker : unit.marker = format.magic := h.marked 0 unit .root
    refine ⟨hmarker, fun depth inner hopens => ?_, h.signed, fun depth object hopens => ?_⟩
    · rw [h.marked depth inner hopens, hmarker]
    · have hlt := h.shallow depth object hopens
      omega
  · rintro ⟨hmarker, hmarked, hsigned, hshallow⟩
    refine load_of_storable hdump
      ⟨fun depth object hopens => ?_, fun depth inner hopens => ?_, hsigned⟩
    · have hlt := hshallow depth object hopens
      omega
    · rw [hmarked depth inner hopens, hmarker]

/-- A unit whose constants nest three kinds of container around the unit of a function, with a
negative long integer and a NaN that has a payload. -/
def nestedUnit : CodeUnit where
  marker := 62211
  consts :=
    [.dict [(.str "é", .frozenset [.code { marker := 62211, name := "f", names := ["os"] }])],
      .long true [5, 1], .float ⟨0x7ff8000000000001⟩]
  names := ["os", "path"]
  name := "<module>"
  firstLine := 1

theorem load_dump_iff_nestedUnit : ∃ bytes, dump nestedUnit 7 = .ok bytes ∧
    (load bytes .v27 = .ok nestedUnit ↔
      nestedUnit.marker = Format.v27.magic ∧
      (∀ depth inner, Opens (.code nestedUnit) depth (.code inner) →
        inner.marker = nestedUnit.marker) ∧
      (∀ depth, ¬ Opens (.code nestedUnit) depth (.long true [])) ∧
      (∀ depth object, Opens (.code nestedUnit) depth object → depth < maxDepth)) :=
  ⟨_, rfl, load_dump_iff .v27 rfl⟩

/-- Whatever bytes a unit was loaded from, its own container loads to it and is written again
from what was loaded. -/
theorem reload_of_load {bytes stored : Bytes} {format : Format} {unit : CodeUnit} {mtime : UInt32}
    (hload : load bytes format = .ok unit) (hdump : dump unit mtime = .ok stored) :
    load stored format = .ok unit ∧ (do dump (← load stored format) mtime) = .ok stored ∧
      Storable format.magic 0 (.code unit) := by
  have hstorable := storable_of_load hload
  have hreload := load_of_storable hdump hstorable
  refine ⟨hreload, ?_, hstorable⟩
  rw [hreload]
  exact hdump

/-- A container with a float as a numeral, an interned string that is not well-formed, references
to it, and a byte behind the code object. -/
def referringContainer : Bytes :=
  [0x03, 0xf3, 0x0d, 0x0a, 0, 0, 0, 0, 0x63, 0, 0, 0, 0, 0, 0, 0, 0, 0, 0, 0, 0, 0, 0, 0, 0,
    0x73, 0, 0, 0, 0, 0x28, 2, 0, 0, 0, 0x66, 3, 0x31, 0x2e, 0x35, 0x74, 2, 0, 0, 0, 0x6f, 0xff,
    0x28, 1, 0, 0, 0, 0x52, 0, 0, 0, 0, 0x28, 0, 0, 0, 0, 0x28, 0, 0, 0, 0, 0x28, 0, 0, 0, 0,
    0x52, 0, 0, 0, 0, 0x73, 0, 0, 0, 0, 1, 0, 0, 0, 0x73, 0, 0, 0, 0, 0xaa]

theorem reload_of_load_referringContainer : ∃ unit stored,
    load referringContainer .v27 = .ok unit ∧ dump unit 7 = .ok stored ∧
      load stored .v27 = .ok unit ∧ (do dump (← load stored .v27) 7) = .ok stored ∧
        Storable Format.v27.magic 0 (.code unit) := by
  have hstored : (do dump (← load referringContainer .v27) 7).isOk = true := by decide +kernel
  cases h : (do dump (← load referringContainer .v27) 7) with
  | error error =>
    rw [h] at hstored
    cases hstored
  | ok stored =>
    obtain ⟨unit, hload, hdump⟩ := except_bind_eq_ok h
    exact ⟨unit, stored, hload, hdump, reload_of_load hload hdump⟩

end ImportAtlas.Container
