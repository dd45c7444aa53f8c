import ImportAtlas.Proofs.Container.Framed
import ImportAtlas.Proofs.Container.Interning

/-!
# Framing of containers

A container ends where its code object ends. Bytes behind that are not looked at,
and a container that was cut anywhere before it does not load. The second half
rests on what is written being an encoding of the grammar, storable or not: the
read of an encoding stops right behind it or fails, so a read that had enough in
a strict prefix would leave bytes of the whole unread.
-/

namespace ImportAtlas.Container

open Writer Reader Descent

/-! ## What is written is an encoding -/

/-- Writing went from `out` to `next` by one object, with its strings written out. -/
def Encodes (out next : Output) : Prop :=
  ∃ pieces, Encoding pieces ∧ Wrote out next (write (inlined pieces))

def EncodesItems (count : Nat) (out next : Output) : Prop :=
  ∃ items : List (List Piece), items.length = count ∧ (∀ item ∈ items, Encoding item) ∧
    Wrote out next (write (inlined items.flatten))

def EncodesEntries (out next : Output) : Prop :=
  ∃ entries : List (List Piece × List Piece), (∀ entry ∈ entries, Encoding entry.1) ∧
    (∀ entry ∈ entries, Encoding entry.2) ∧
    Wrote out next (write (inlined (entries.flatMap fun entry => entry.1 ++ entry.2)))

theorem Payload.encodes {tag : Tag} {payload : Bytes} (hpayload : Payload tag payload)
    {out next : Output} (h : Wrote out next ([tag.toByte] ++ payload)) : Encodes out next := by
  have hbytes :
      write (inlined [.fixed [tag.toByte], .fixed payload]) = [tag.toByte] ++ payload := by
    simp [write, inlined, Piece.inlined, Piece.bytes]
  refine ⟨_, .plain hpayload, ?_⟩
  rwa [hbytes]

theorem encodes_putTag {tag : Tag} (hpayload : Payload tag []) (out : Output) :
    Encodes out (putTag tag out) :=
  hpayload.encodes (wrote_putTag tag out)

theorem encodes_putInt (value : Int64) (out : Output) : Encodes out (putInt value out) := by
  unfold putInt
  split
  · exact (Payload.int _).encodes ((wrote_putTag _ _).trans (wrote_putBytes _ _))
  · exact (Payload.int64 _).encodes ((wrote_putTag _ _).trans (wrote_putBytes _ _))

theorem encodes_putLong {negative : Bool} {digits : List UInt16} {out next : Output}
    (h : putLong negative digits out = .ok next) : Encodes out next := by
  unfold putLong at h
  simp only at h
  split at h
  · rename_i hcount
    cases h
    have hdigits : (digits.flatMap fun digit => Word.encode 2 digit.toNat).length =
        2 * (signedCount negative digits.length).toInt.natAbs := by
      rw [length_flatMap_encode, natAbs_signedCount hcount]
    have hwrote := (wrote_putTag .long out).trans
      ((wrote_putBytes (Word.ofInt32 (signedCount negative digits.length)) _).trans
        (wrote_putBytes (digits.flatMap fun digit => Word.encode 2 digit.toNat) _))
    exact (Payload.long hdigits).encodes hwrote
  · cases h

theorem wrote_string {raw : Bytes} {out next : Output} (h : putString raw out = .ok next) :
    (Spelling.inline raw).Fits ∧ Wrote out next (write [.string (.inline raw)]) := by
  obtain ⟨hfits, hwrote⟩ := wrote_putString h
  refine ⟨hfits, ?_⟩
  rw [write_string]
  exact hwrote

theorem encodes_putString {raw : Bytes} {out next : Output} (h : putString raw out = .ok next) :
    Encodes out next := by
  obtain ⟨hfits, hwrote⟩ := wrote_string h
  exact ⟨_, .string hfits, hwrote⟩

theorem encodes_unicode {raw : Bytes} {out counted : Output}
    (h : putLength raw.length (putTag .unicode out) = .ok counted) :
    Encodes out (putBytes raw counted) := by
  obtain ⟨hcount, hlength⟩ := wrote_putLength h
  have hwrote := (wrote_putTag .unicode out).trans (hlength.trans (wrote_putBytes raw counted))
  exact (Payload.unicode hcount).encodes hwrote

theorem encodesItems_nil (out : Output) : EncodesItems 0 out out :=
  ⟨[], rfl, by simp, by simp [Wrote, write, inlined]⟩

theorem Encodes.cons {out middle next : Output} {count : Nat} (hitem : Encodes out middle)
    (hitems : EncodesItems count middle next) : EncodesItems (count + 1) out next := by
  obtain ⟨pieces, hpieces, hfront⟩ := hitem
  obtain ⟨items, hlength, hitems, hback⟩ := hitems
  refine ⟨pieces :: items, ?_, List.forall_mem_cons.2 ⟨hpieces, hitems⟩, ?_⟩
  · rw [List.length_cons, hlength]
  · rw [List.flatten_cons, inlined_append, write_append]
    exact hfront.trans hback

theorem EncodesItems.sequence {kind : SequenceKind} {count : Nat} {out counted next : Output}
    (hcounted : putLength count (putTag (.sequence kind) out) = .ok counted)
    (hitems : EncodesItems count counted next) : Encodes out next := by
  obtain ⟨hcount, hlength⟩ := wrote_putLength hcounted
  obtain ⟨items, rfl, hencoding, hwrote⟩ := hitems
  refine ⟨_, .sequence kind hcount hencoding, ?_⟩
  exact (wrote_putTag _ _).trans (hlength.trans hwrote)

theorem encodesItems_names {names : List String} {out next : Output}
    (h : putNameEntries names out = .ok next) : EncodesItems names.length out next := by
  induction names generalizing out with
  | nil =>
    cases h
    exact encodesItems_nil _
  | cons name names ih =>
    obtain ⟨middle, hname, hnames⟩ := except_bind_eq_ok h
    exact (encodes_putString hname).cons (ih hnames)

theorem encodes_putNames {names : List String} {out next : Output}
    (h : putNames names out = .ok next) : Encodes out next := by
  obtain ⟨counted, hcounted, hnames⟩ := except_bind_eq_ok h
  exact (encodesItems_names hnames).sequence hcounted

theorem encodesEntries_nil (out : Output) : EncodesEntries out out :=
  ⟨[], by simp, by simp, by simp [Wrote, write, inlined]⟩

theorem EncodesEntries.cons {out afterKey afterValue next : Output} (hkey : Encodes out afterKey)
    (hvalue : Encodes afterKey afterValue) (hentries : EncodesEntries afterValue next) :
    EncodesEntries out next := by
  obtain ⟨key, hkey, hfront⟩ := hkey
  obtain ⟨value, hvalue, hmiddle⟩ := hvalue
  obtain ⟨entries, hkeys, hvalues, hback⟩ := hentries
  refine ⟨(key, value) :: entries, List.forall_mem_cons.2 ⟨hkey, hkeys⟩,
    List.forall_mem_cons.2 ⟨hvalue, hvalues⟩, ?_⟩
  rw [List.flatMap_cons, inlined_append, inlined_append, write_append, write_append]
  exact (hfront.trans hmiddle).trans hback

theorem EncodesEntries.dict {out next : Output} (h : EncodesEntries (putTag .dict out) next) :
    Encodes out (putTag .null next) := by
  obtain ⟨entries, hkeys, hvalues, hwrote⟩ := h
  have hbytes : write (inlined (.fixed [Tag.dict.toByte] :: entryPieces entries)) =
      [Tag.dict.toByte] ++ (write (inlined (entries.flatMap fun entry => entry.1 ++ entry.2)) ++
        [Tag.null.toByte]) := by
    rw [entryPieces, ← List.singleton_append, inlined_append, inlined_append, write_append,
      write_append]
    rfl
  refine ⟨_, .dict hkeys hvalues, ?_⟩
  rw [hbytes]
  exact (wrote_putTag _ _).trans (hwrote.trans (wrote_putTag _ _))

theorem wrote_firstLine {line : UInt32} {out next : Output}
    (h : putFirstLine line out = .ok next) : Wrote out next (Word.ofInt32 line.toInt32) :=
  (wrote_putFirstLine h).2

theorem encodes_putUnit {unit : CodeUnit} {out next : Output}
    (hitems : ∀ {out next : Output}, putItems unit.consts out = .ok next →
      EncodesItems unit.consts.length out next)
    (h : putUnit unit out = .ok next) : Encodes out next := by
  rw [putUnit_eq] at h
  obtain ⟨afterCode, hcode, h⟩ := except_bind_eq_ok h
  obtain ⟨counted, hcounted, h⟩ := except_bind_eq_ok h
  obtain ⟨afterConsts, hconsts, h⟩ := except_bind_eq_ok h
  obtain ⟨afterNames, hnames, h⟩ := except_bind_eq_ok h
  obtain ⟨afterVarnames, hvarnames, h⟩ := except_bind_eq_ok h
  obtain ⟨afterFreevars, hfreevars, h⟩ := except_bind_eq_ok h
  obtain ⟨afterCellvars, hcellvars, h⟩ := except_bind_eq_ok h
  obtain ⟨afterFilename, hfilename, h⟩ := except_bind_eq_ok h
  obtain ⟨afterName, hname, h⟩ := except_bind_eq_ok h
  obtain ⟨afterLine, hline, hlnotab⟩ := except_bind_eq_ok h
  obtain ⟨codeFits, codeWrote⟩ := wrote_string hcode
  obtain ⟨consts, constsEncoding, constsWrote⟩ := (hitems hconsts).sequence hcounted
  obtain ⟨names, namesEncoding, namesWrote⟩ := encodes_putNames hnames
  obtain ⟨varnames, varnamesEncoding, varnamesWrote⟩ := encodes_putNames hvarnames
  obtain ⟨freevars, freevarsEncoding, freevarsWrote⟩ := encodes_putNames hfreevars
  obtain ⟨cellvars, cellvarsEncoding, cellvarsWrote⟩ := encodes_putNames hcellvars
  obtain ⟨filenameFits, filenameWrote⟩ := wrote_string hfilename
  obtain ⟨nameFits, nameWrote⟩ := wrote_string hname
  have lineWrote := wrote_firstLine hline
  obtain ⟨lnotabFits, lnotabWrote⟩ := wrote_string hlnotab
  let parts : CodeParts := {
    argcount := unit.argcount, nlocals := unit.nlocals, stacksize := unit.stacksize,
    flags := unit.flags, code := .inline unit.code, consts, names, varnames, freevars, cellvars,
    filename := .inline (Utf8.encode unit.filename), name := .inline (Utf8.encode unit.name),
    firstLine := unit.firstLine.toInt32, lnotab := .inline unit.lnotab }
  have hencoding : Encoding (.fixed [Tag.code.toByte] :: parts.pieces) := by
    apply Encoding.code
    · simp only [CodeParts.strings, parts, List.forall_mem_cons]
      exact ⟨codeFits, filenameFits, nameFits, lnotabFits, List.forall_mem_nil _⟩
    · simp only [CodeParts.tables, parts, List.forall_mem_cons]
      exact ⟨constsEncoding, namesEncoding, varnamesEncoding, freevarsEncoding, cellvarsEncoding,
        List.forall_mem_nil _⟩
  have hwrote := (wrote_putTag .code out).trans <|
    ((wrote_putBytes _ _).trans codeWrote).trans <| constsWrote.trans <| namesWrote.trans <|
    varnamesWrote.trans <| freevarsWrote.trans <| cellvarsWrote.trans <| filenameWrote.trans <|
    nameWrote.trans <| lineWrote.trans lnotabWrote
  refine ⟨_, hencoding, ?_⟩
  have hbytes : write (inlined (.fixed [Tag.code.toByte] :: parts.pieces)) =
      [Tag.code.toByte] ++
        (([unit.argcount, unit.nlocals, unit.stacksize, unit.flags].flatMap Word.ofInt32 ++
            write [.string (.inline unit.code)]) ++
          (write (inlined consts) ++ (write (inlined names) ++ (write (inlined varnames) ++
            (write (inlined freevars) ++ (write (inlined cellvars) ++
              (write [.string (.inline (Utf8.encode unit.filename))] ++
                (write [.string (.inline (Utf8.encode unit.name))] ++
                  (Word.ofInt32 unit.firstLine.toInt32 ++
                    write [.string (.inline unit.lnotab)]))))))))) := by
    simp [write, inlined, CodeParts.pieces, CodeParts.head, CodeParts.tail, parts, Piece.inlined,
      Piece.bytes, Spelling.raw]
  rw [hbytes]
  exact hwrote

mutual

theorem encodes_putConstant : ∀ (constant : Constant) {out next : Output},
    putConstant constant out = .ok next → Encodes out next
  | .none, out, next, h => by
    rw [putConstant] at h
    obtain rfl := Except.ok.inj h
    exact encodes_putTag .none out
  | .bool value, out, next, h => by
    rw [putConstant] at h
    obtain rfl := Except.ok.inj h
    cases value
    · exact encodes_putTag .false out
    · exact encodes_putTag .true out
  | .stopIteration, out, next, h => by
    rw [putConstant] at h
    obtain rfl := Except.ok.inj h
    exact encodes_putTag .stopIteration out
  | .ellipsis, out, next, h => by
    rw [putConstant] at h
    obtain rfl := Except.ok.inj h
    exact encodes_putTag .ellipsis out
  | .int value, out, next, h => by
    rw [putConstant] at h
    obtain rfl := Except.ok.inj h
    exact encodes_putInt value out
  | .long negative digits, out, next, h => by
    rw [putConstant] at h
    exact encodes_putLong h
  | .float value, out, next, h => by
    rw [putConstant] at h
    obtain rfl := Except.ok.inj h
    exact (Payload.float value).encodes ((wrote_putTag _ _).trans (wrote_putBytes _ _))
  | .complex real imaginary, out, next, h => by
    rw [putConstant] at h
    obtain rfl := Except.ok.inj h
    exact (Payload.complex real imaginary).encodes
      ((wrote_putTag _ _).trans ((wrote_putBytes _ _).trans (wrote_putBytes _ _)))
  | .str text, out, next, h => by
    rw [putConstant] at h
    exact encodes_putString h
  | .unicode text, out, next, h => by
    rw [putConstant] at h
    obtain ⟨counted, hcounted, h⟩ := except_bind_eq_ok h
    obtain rfl := Except.ok.inj h
    exact encodes_unicode hcounted
  | .tuple items, out, next, h => by
    rw [putConstant] at h
    obtain ⟨counted, hcounted, h⟩ := except_bind_eq_ok h
    exact (encodesItems_putItems items h).sequence hcounted
  | .list items, out, next, h => by
    rw [putConstant] at h
    obtain ⟨counted, hcounted, h⟩ := except_bind_eq_ok h
    exact (encodesItems_putItems items h).sequence hcounted
  | .set items, out, next, h => by
    rw [putConstant] at h
    obtain ⟨counted, hcounted, h⟩ := except_bind_eq_ok h
    exact (encodesItems_putItems items h).sequence hcounted
  | .frozenset items, out, next, h => by
    rw [putConstant] at h
    obtain ⟨counted, hcounted, h⟩ := except_bind_eq_ok h
    exact (encodesItems_putItems items h).sequence hcounted
  | .dict entries, out, next, h => by
    rw [putConstant] at h
    obtain ⟨afterEntries, hentries, h⟩ := except_bind_eq_ok h
    obtain rfl := Except.ok.inj h
    exact (encodesEntries_putEntries entries hentries).dict
  | .code ⟨marker, argcount, nlocals, stacksize, flags, code, consts, names, varnames, freevars,
      cellvars, filename, name, firstLine, lnotab⟩, out, next, h => by
    rw [putConstant] at h
    exact encodes_putUnit (fun h => encodesItems_putItems consts h) h

theorem encodesItems_putItems : ∀ (items : List Constant) {out next : Output},
    putItems items out = .ok next → EncodesItems items.length out next
  | [], out, next, h => by
    rw [putItems] at h
    obtain rfl := Except.ok.inj h
    exact encodesItems_nil out
  | item :: items, out, next, h => by
    rw [putItems] at h
    obtain ⟨middle, hitem, hitems⟩ := except_bind_eq_ok h
    exact (encodes_putConstant item hitem).cons (encodesItems_putItems items hitems)

theorem encodesEntries_putEntries : ∀ (entries : List (Constant × Constant)) {out next : Output},
    putEntries entries out = .ok next → EncodesEntries out next
  | [], out, next, h => by
    rw [putEntries] at h
    obtain rfl := Except.ok.inj h
    exact encodesEntries_nil out
  | (key, value) :: entries, out, next, h => by
    rw [putEntries] at h
    obtain ⟨afterKey, hkey, h⟩ := except_bind_eq_ok h
    obtain ⟨afterValue, hvalue, hentries⟩ := except_bind_eq_ok h
    exact .cons (encodes_putConstant key hkey) (encodes_putConstant value hvalue)
      (encodesEntries_putEntries entries hentries)

end

/-- A dumped unit is a header and an encoding, whether or not the unit is storable. -/
theorem dump_encodes {unit : CodeUnit} {mtime : UInt32} {bytes : Bytes}
    (h : dump unit mtime = .ok bytes) :
    ∃ pieces, Encoding pieces ∧
      bytes = Header.render ⟨unit.marker, mtime⟩ ++ write (inlined pieces) := by
  obtain ⟨out, hout, h⟩ := except_bind_eq_ok h
  obtain rfl := Except.ok.inj h
  obtain ⟨pieces, hencoding, hwrote⟩ := encodes_putConstant (.code unit) hout
  refine ⟨pieces, hencoding, ?_⟩
  rw [hwrote]
  simp [putBytes]

/-! ## Where a container ends -/

/-- The read of an encoding leaves nothing of it unread. -/
theorem Encoding.rest_of_read {pieces : List Piece} (h : Encoding pieces) {marker : UInt16}
    {position : Nat} {value : Constant} {next : Stream}
    (hread : (objectAt marker 0).read ⟨write (inlined pieces), position, #[]⟩ = .ok (value, next)) :
    next.rest = [] := by
  obtain ⟨outcome, hagrees⟩ := h.indifferent marker 0
  have hends := hagrees.inline [] position #[]
  rw [List.append_nil, hread] at hends
  cases outcome with
  | ok found =>
    have hnext := (Prod.mk.inj (Except.ok.inj hends)).2
    rw [hnext]
  | error problem =>
    obtain ⟨place, hplace⟩ := hends
    cases hplace

theorem parse_of_lt {bytes : Bytes} (h : bytes.length < headerSize) :
    Header.parse bytes = .error (.malformed bytes.length .headerTooShort) := by
  unfold Header.parse
  split
  · simp only [headerSize, List.length_cons] at h
    omega
  · rfl

theorem headerSize_le_of_parse {bytes : Bytes} {header : Header}
    (h : Header.parse bytes = .ok header) : headerSize ≤ bytes.length := by
  rcases Nat.lt_or_ge bytes.length headerSize with hlt | hge
  · rw [parse_of_lt hlt] at h
    cases h
  · exact hge

theorem parse_append {bytes : Bytes} {header : Header} (h : Header.parse bytes = .ok header)
    (tail : Bytes) :
    Header.parse (bytes ++ tail) = .ok header ∧
      (bytes ++ tail).drop headerSize = bytes.drop headerSize ++ tail := by
  refine ⟨?_, List.drop_append_of_le_length (headerSize_le_of_parse h)⟩
  unfold Header.parse at h
  split at h
  · exact h
  · cases h

theorem load_append {bytes : Bytes} {format : Format} {unit : CodeUnit}
    (h : load bytes format = .ok unit) (tail : Bytes) :
    load (bytes ++ tail) format = .ok unit := by
  obtain ⟨header, hparse, h⟩ := except_bind_eq_ok h
  obtain ⟨_, hcheck, h⟩ := except_bind_eq_ok h
  obtain ⟨⟨value, next⟩, hobject, h⟩ := except_bind_eq_ok h
  obtain ⟨hparse, hdrop⟩ := parse_append hparse tail
  rw [object_eq_objectAt] at hobject
  have hextended := (framed_objectAt header.magic 0).stable hobject tail
  rw [← object_eq_objectAt] at hextended
  simp only [Stream.extend] at hextended
  simp only [load, hparse, hcheck, hdrop, hextended, bind, Except.bind]
  exact h

/-- A header with a strict prefix of an encoding behind it does not load. -/
theorem load_of_cut {pieces : List Piece} (hencoding : Encoding pieces) {header : Header}
    {format : Format} (hmagic : header.magic = format.magic) {front back : Bytes}
    (hcut : write (inlined pieces) = front ++ back) (hback : back ≠ []) :
    ∃ position problem,
      load (header.render ++ front) format = .error (.malformed position problem) ∧
        position ≤ (header.render ++ front).length := by
  have hframed := framed_objectAt format.magic 0
  cases hread : (objectAt format.magic 0).read ⟨front, headerSize, #[]⟩ with
  | error error =>
    obtain ⟨position, problem, rfl, hposition⟩ := hframed.malformed hread
    refine ⟨position, problem, load_of_error hmagic hread, ?_⟩
    rw [List.length_append, length_render]
    exact hposition
  | ok result =>
    obtain ⟨value, next⟩ := result
    have hextended := hframed.stable hread back
    simp only [Stream.extend, ← hcut] at hextended
    have hrest : next.rest ++ back = [] := hencoding.rest_of_read hextended
    exact absurd (List.append_eq_nil_iff.1 hrest).2 hback

/--
A container that loads does so whatever bytes are put behind it, and no strict
prefix of a dumped unit loads for the unit's own format: it is malformed, at a
position within it. The unit need not survive the round trip for that.
-/
theorem load_frames_container (format : Format) :
    (∀ bytes unit tail, load bytes format = .ok unit →
      load (bytes ++ tail) format = .ok unit) ∧
    (∀ unit mtime bytes front, unit.marker = format.magic → dump unit mtime = .ok bytes →
      front <+: bytes → front ≠ bytes →
      ∃ position problem, load front format = .error (.malformed position problem) ∧
        (Error.malformed position problem).code = "MARSHAL_ERROR" ∧ position ≤ front.length) := by
  refine ⟨fun bytes unit tail h => load_append h tail, ?_⟩
  intro unit mtime bytes front hmarker hdump hprefix hne
  obtain ⟨pieces, hencoding, rfl⟩ := dump_encodes hdump
  obtain ⟨back, hback⟩ := hprefix
  rcases Nat.lt_or_ge front.length headerSize with hlt | hge
  · refine ⟨front.length, .headerTooShort, ?_, rfl, Nat.le_refl _⟩
    unfold load
    rw [parse_of_lt hlt]
    rfl
  · -- The cut is behind the header, so inside the encoding.
    have hheader : Header.render ⟨unit.marker, mtime⟩ <+: front := by
      apply List.prefix_of_prefix_length_le (List.prefix_append _ _) ⟨back, hback⟩
      rwa [length_render]
    obtain ⟨inner, rfl⟩ := hheader
    rw [List.append_assoc] at hback
    have hcut : write (inlined pieces) = inner ++ back := (List.append_cancel_left hback).symm
    have hcutoff : back ≠ [] := by
      rintro rfl
      rw [hcut, List.append_nil] at hne
      exact hne rfl
    have hmagic : (Header.mk unit.marker mtime).magic = format.magic := hmarker
    obtain ⟨position, problem, hload, hposition⟩ := load_of_cut hencoding hmagic hcut hcutoff
    exact ⟨position, problem, hload, rfl, hposition⟩

/-- A unit that does not survive the round trip: in a dictionary it holds a negative zero and a
unit with another marker. -/
def unstorableUnit : CodeUnit where
  marker := 62211
  consts := [.dict [(.long true [], .code { marker := 7, name := "f" })]]
  name := "<module>"
  firstLine := 1

theorem load_frames_container_unstorableUnit :
    (∃ unit, load referringContainer .v27 = .ok unit ∧
      load (referringContainer ++ [0x30]) .v27 = .ok unit) ∧
    ∃ bytes, dump unstorableUnit 7 = .ok bytes ∧ bytes.take 40 ≠ bytes ∧
      ∃ position problem, load (bytes.take 40) .v27 = .error (.malformed position problem) ∧
        (Error.malformed position problem).code = "MARSHAL_ERROR" ∧
        position ≤ (bytes.take 40).length := by
  constructor
  · have hok : (load referringContainer .v27).isOk = true := by decide +kernel
    cases h : load referringContainer .v27 with
    | error error =>
      rw [h] at hok
      cases hok
    | ok unit => exact ⟨unit, rfl, (load_frames_container .v27).1 _ _ _ h⟩
  · refine ⟨_, rfl, by decide, ?_⟩
    exact (load_frames_container .v27).2 unstorableUnit 7 _ _ rfl rfl (List.take_prefix _ _)
      (by decide)

end ImportAtlas.Container
