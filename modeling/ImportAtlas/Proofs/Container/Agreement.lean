import ImportAtlas.Proofs.Container.RoundTrip
import ImportAtlas.Proofs.Container.Spelling

/-!
# Reading strings in any spelling

An object is read to the same value whichever way its strings are spelled. The
reference table grows in the order of the stream, so a read of some pieces is
compared with the read of the same pieces with all strings written out, from any
table: `Agrees` says how the two end, `Indifferent` that they end alike. Sequences
of reads take the pieces of their parts one after another, and the main lemma goes
by induction on the grammar.
-/

namespace ImportAtlas.Container

open Reader Descent

variable {α β : Type}

/-- A read ends at `next` with a value, or it fails, at any position, with a problem. -/
def Ends (result : Except Error (α × Stream)) (outcome : Except ContainerProblem α)
    (next : Stream) : Prop :=
  match outcome with
  | .ok value => result = .ok (value, next)
  | .error problem => ∃ position, result = .error (.malformed position problem)

/-- How a read of `pieces` ends, in the spelling they have and with all strings written out. -/
structure Agrees (reader : Reader α) (pieces : List Piece)
    (outcome : Except ContainerProblem α) : Prop where
  inline : ∀ tail position table,
    Ends (reader ⟨write (inlined pieces) ++ tail, position, table⟩) outcome
      ⟨tail, position + (write (inlined pieces)).length, table⟩
  resolved : ∀ tail position table, AllResolve table (spellings pieces) →
    Ends (reader ⟨write pieces ++ tail, position, table⟩) outcome
      ⟨tail, position + (write pieces).length, enterAll table (spellings pieces)⟩
  /-- A problem other than the dangling reference was met before it, in either spelling. -/
  dangling : ∀ index tail position table, FirstDangles index table (spellings pieces) →
    ∃ place problem, reader ⟨write pieces ++ tail, position, table⟩ =
        .error (.malformed place problem) ∧
      (problem = .unknownReference index ∨ outcome = .error problem)

def Indifferent (reader : Reader α) (pieces : List Piece) : Prop :=
  ∃ outcome, Agrees reader pieces outcome

/-! ## Reads one after another -/

theorem Ends.bind {first : Reader α} {second : α → Reader β} {stream middle final : Stream}
    {value : α} {outcome : Except ContainerProblem β}
    (hfirst : Ends (first stream) (.ok value) middle)
    (hsecond : Ends (second value middle) outcome final) :
    Ends ((first >>= second) stream) outcome final := by
  rw [bind_of_ok hfirst]
  exact hsecond

theorem Ends.bind_error {first : Reader α} {second : α → Reader β} {stream middle final : Stream}
    {problem : ContainerProblem} (hfirst : Ends (first stream) (.error problem) middle) :
    Ends ((first >>= second) stream) (.error problem) final := by
  obtain ⟨position, hposition⟩ := hfirst
  exact ⟨position, bind_of_error hposition⟩

namespace Agrees

theorem pure (value : α) : Agrees (Pure.pure value : Reader α) [] (.ok value) where
  inline _ _ _ := rfl
  resolved _ _ _ _ := rfl
  dangling _ _ _ _ h := nomatch h

theorem fail (problem : ContainerProblem) (pieces : List Piece) :
    Agrees (Reader.fail problem : Reader α) pieces (.error problem) where
  inline _ position _ := ⟨position, rfl⟩
  resolved _ position _ _ := ⟨position, rfl⟩
  dangling _ _ position _ _ := ⟨position, problem, rfl, .inr rfl⟩

theorem of_reads {reader : Reader α} {bytes : Bytes} {value : α} (h : Reads reader bytes value) :
    Agrees reader [.fixed bytes] (.ok value) := by
  have hwrite : write [.fixed bytes] = bytes := List.append_nil bytes
  refine ⟨?_, ?_, ?_⟩
  · intro tail position table
    show reader ⟨write [.fixed bytes] ++ tail, _, _⟩ =
      .ok (value, ⟨tail, _ + (write [.fixed bytes]).length, _⟩)
    rw [hwrite]
    exact h tail position table
  · intro tail position table _
    rw [hwrite]
    exact h tail position table
  · intro index tail position table hdangles
    cases hdangles

theorem bind {first : Reader α} {second : α → Reader β} {left right : List Piece} {value : α}
    {outcome : Except ContainerProblem β} (hfirst : Agrees first left (.ok value))
    (hsecond : Agrees (second value) right outcome) :
    Agrees (first >>= second) (left ++ right) outcome := by
  refine ⟨?_, ?_, ?_⟩
  · intro tail position table
    rw [inlined_append, write_append, List.append_assoc, List.length_append, ← Nat.add_assoc]
    exact (hfirst.inline _ _ _).bind (hsecond.inline _ _ _)
  · intro tail position table hresolves
    rw [spellings_append] at hresolves
    obtain ⟨hleft, hright⟩ := allResolve_append.1 hresolves
    rw [write_append, List.append_assoc, List.length_append, ← Nat.add_assoc, spellings_append,
      enterAll_append]
    exact (hfirst.resolved _ _ _ hleft).bind (hsecond.resolved _ _ _ hright)
  · intro index tail position table hdangles
    rw [spellings_append] at hdangles
    rw [write_append, List.append_assoc]
    -- Either the first read meets the reference, or it takes its strings and the second does.
    rcases firstDangles_append.1 hdangles with hleft | ⟨hleft, hright⟩
    · obtain ⟨place, problem, hread, hproblem⟩ :=
        hfirst.dangling index (write right ++ tail) position table hleft
      refine ⟨place, problem, bind_of_error hread, .inl ?_⟩
      rcases hproblem with hunknown | hother
      · exact hunknown
      · cases hother
    · rw [bind_of_ok (hfirst.resolved (write right ++ tail) position table hleft)]
      exact hsecond.dangling index tail _ _ hright

theorem bind_error {first : Reader α} {left : List Piece} {problem : ContainerProblem}
    (hfirst : Agrees first left (.error problem)) (second : α → Reader β) (right : List Piece) :
    Agrees (first >>= second) (left ++ right) (.error problem) := by
  refine ⟨?_, ?_, ?_⟩
  · intro tail position table
    rw [inlined_append, write_append, List.append_assoc]
    exact (hfirst.inline _ _ _).bind_error
  · intro tail position table hresolves
    rw [spellings_append] at hresolves
    rw [write_append, List.append_assoc]
    exact (hfirst.resolved _ _ _ (allResolve_append.1 hresolves).1).bind_error
  · intro index tail position table hdangles
    rw [spellings_append] at hdangles
    rw [write_append, List.append_assoc]
    rcases firstDangles_append.1 hdangles with hleft | ⟨hleft, -⟩
    · obtain ⟨place, found, hread, hproblem⟩ :=
        hfirst.dangling index (write right ++ tail) position table hleft
      refine ⟨place, found, bind_of_error hread, ?_⟩
      rcases hproblem with hunknown | hother
      · exact .inl hunknown
      · cases hother
        exact .inr rfl
    · obtain ⟨place, hread⟩ := hfirst.resolved (write right ++ tail) position table hleft
      exact ⟨place, problem, bind_of_error hread, .inr rfl⟩

theorem congr {reader other : Reader α} {pieces : List Piece}
    {outcome : Except ContainerProblem α} (h : Agrees other pieces outcome)
    (hwrite : ∀ tail position table, reader ⟨write pieces ++ tail, position, table⟩ =
      other ⟨write pieces ++ tail, position, table⟩)
    (hinlined : ∀ tail position table, reader ⟨write (inlined pieces) ++ tail, position, table⟩ =
      other ⟨write (inlined pieces) ++ tail, position, table⟩) :
    Agrees reader pieces outcome where
  inline tail position table := by
    rw [hinlined]
    exact h.inline tail position table
  resolved tail position table hresolves := by
    rw [hwrite]
    exact h.resolved tail position table hresolves
  dangling index tail position table hdangles := by
    rw [hwrite]
    exact h.dangling index tail position table hdangles

end Agrees

namespace Indifferent

theorem pure (value : α) : Indifferent (Pure.pure value : Reader α) [] :=
  ⟨_, Agrees.pure value⟩

theorem fail (problem : ContainerProblem) (pieces : List Piece) :
    Indifferent (Reader.fail problem : Reader α) pieces :=
  ⟨_, Agrees.fail problem pieces⟩

theorem of_reads {reader : Reader α} {bytes : Bytes} {value : α} (h : Reads reader bytes value) :
    Indifferent reader [.fixed bytes] :=
  ⟨_, Agrees.of_reads h⟩

theorem bind {first : Reader α} {second : α → Reader β} {left right : List Piece}
    (hfirst : Indifferent first left) (hsecond : ∀ value, Indifferent (second value) right) :
    Indifferent (first >>= second) (left ++ right) := by
  obtain ⟨outcome, hfirst⟩ := hfirst
  cases outcome with
  | error problem => exact ⟨_, hfirst.bind_error second right⟩
  | ok value =>
    obtain ⟨final, hsecond⟩ := hsecond value
    exact ⟨final, hfirst.bind hsecond⟩

theorem bind_reads {first : Reader α} {second : α → Reader β} {bytes : Bytes} {value : α}
    {right : List Piece} (hfirst : Reads first bytes value)
    (hsecond : Indifferent (second value) right) :
    Indifferent (first >>= second) (.fixed bytes :: right) := by
  obtain ⟨outcome, hsecond⟩ := hsecond
  exact ⟨outcome, (Agrees.of_reads hfirst).bind hsecond⟩

theorem map {reader : Reader α} {pieces : List Piece} (h : Indifferent reader pieces)
    (f : α → β) : Indifferent (do return f (← reader)) pieces := by
  have hmapped : Indifferent (reader >>= fun value => Pure.pure (f value)) (pieces ++ []) :=
    h.bind fun value => pure (f value)
  rwa [List.append_nil] at hmapped

theorem join {reader : Reader α} {front back : Bytes}
    (h : Indifferent reader [.fixed front, .fixed back]) :
    Indifferent reader [.fixed (front ++ back)] := by
  obtain ⟨outcome, h⟩ := h
  have hwrite : write [.fixed (front ++ back)] = write [.fixed front, .fixed back] := by
    simp [write, Piece.bytes]
  refine ⟨outcome, ?_, ?_, ?_⟩
  · intro tail position table
    show Ends (reader ⟨write [.fixed (front ++ back)] ++ tail, _, _⟩) _
      ⟨_, _ + (write [.fixed (front ++ back)]).length, _⟩
    rw [hwrite]
    exact h.inline tail position table
  · intro tail position table hresolves
    rw [hwrite]
    exact h.resolved tail position table hresolves
  · intro index tail position table hdangles
    cases hdangles

end Indifferent

/-! ## Strings -/

theorem write_string (spelling : Spelling) :
    write [.string spelling] = (Tag.string spelling.form).toByte :: spelling.body :=
  List.append_nil _

theorem byte_cons (code : UInt8) (rest : Bytes) (position : Nat) (table : Array Bytes) :
    byte ⟨code :: rest, position, table⟩ = .ok (code, ⟨rest, position + 1, table⟩) := rfl

section Strings

variable {spelling : Spelling} {table : Array Bytes}

theorem stringBody_of_resolves (hfits : spelling.Fits) (hresolves : spelling.Resolves table)
    (tail : Bytes) (position : Nat) :
    stringBody spelling.form ⟨spelling.body ++ tail, position, table⟩ =
      .ok (spelling.raw, ⟨tail, position + spelling.body.length, spelling.enter table⟩) := by
  cases spelling with
  | inline raw => exact Reads.stringBody hfits tail position table
  | interned raw =>
    have hraw : Reads (Reader.length >>= take) (Word.encode 4 raw.length ++ raw) raw :=
      (Reads.length hfits).bind (Reads.take rfl)
    have hbody : stringBody .interned =
        (Reader.length >>= take) >>= fun raw => intern raw >>= fun _ => pure raw := by
      rw [bind_assoc]
      rfl
    show stringBody .interned ⟨Word.encode 4 raw.length ++ raw ++ tail, position, table⟩ = _
    rw [hbody, bind_of_ok (hraw tail position table)]
    rfl
  | reference index raw =>
    have hlookup : table[index]? = some raw := hresolves
    show stringBody .reference ⟨Word.encode 4 index ++ tail, position, table⟩ = _
    rw [stringBody, bind_of_ok (Reads.length hfits.2 tail position table)]
    simp only [lookup, hlookup]
    rfl

theorem stringBody_of_dangles {index : Nat} (hfits : spelling.Fits)
    (hdangles : spelling.Dangles index table) (tail : Bytes) (position : Nat) :
    ∃ place, stringBody spelling.form ⟨spelling.body ++ tail, position, table⟩ =
      .error (.malformed place (.unknownReference index)) := by
  cases spelling with
  | inline raw | interned raw => cases hdangles
  | reference number raw =>
    obtain ⟨rfl, hsize⟩ := hdangles
    have hlookup : table[number]? = none := Array.getElem?_eq_none hsize
    refine ⟨position + (Word.encode 4 number).length, ?_⟩
    show stringBody .reference ⟨Word.encode 4 number ++ tail, position, table⟩ = _
    rw [stringBody, bind_of_ok (Reads.length hfits.2 tail position table)]
    simp only [lookup, hlookup]

def TakesString (reader : Reader α) (f : Bytes → α) : Prop :=
  ∀ form rest position table, reader ⟨(Tag.string form).toByte :: rest, position, table⟩ =
    (do return f (← stringBody form)) ⟨rest, position + 1, table⟩

theorem TakesString.of_resolves {reader : Reader α} {f : Bytes → α} (h : TakesString reader f)
    (hfits : spelling.Fits) (hresolves : spelling.Resolves table) (tail : Bytes) (position : Nat) :
    reader ⟨write [.string spelling] ++ tail, position, table⟩ =
      .ok (f spelling.raw, ⟨tail, position + (write [.string spelling]).length,
        spelling.enter table⟩) := by
  rw [write_string, List.cons_append, h, bind_of_ok (stringBody_of_resolves hfits hresolves _ _),
    List.length_cons, Nat.add_assoc, Nat.add_comm 1]
  rfl

theorem TakesString.agrees {reader : Reader α} {f : Bytes → α} (h : TakesString reader f)
    (hfits : spelling.Fits) : Agrees reader [.string spelling] (.ok (f spelling.raw)) := by
  refine ⟨?_, ?_, ?_⟩
  · intro tail position table
    have hinline : (Spelling.inline spelling.raw).Fits := Spelling.length_raw_lt hfits
    exact h.of_resolves hinline trivial tail position
  · intro tail position table hresolves
    exact h.of_resolves hfits hresolves.1 tail position
  · intro index tail position table hdangles
    rcases hdangles with hdangles | ⟨-, hnone⟩
    · obtain ⟨place, hread⟩ := stringBody_of_dangles hfits hdangles tail (position + 1)
      refine ⟨place, .unknownReference index, ?_, .inl rfl⟩
      rw [write_string, List.cons_append, h, bind_of_error hread]
    · cases hnone

theorem indifferent_rawString (hfits : spelling.Fits) :
    Indifferent rawString [.string spelling] := by
  have htakes : TakesString rawString id := by
    intro form rest position table
    rw [rawString, bind_of_ok (byte_cons _ _ _ _), Tag.ofByte?_toByte]
    exact congrFun (bind_pure (stringBody form)).symm _
  exact ⟨_, htakes.agrees hfits⟩

theorem indifferent_string (hfits : spelling.Fits) : Indifferent string [.string spelling] :=
  (indifferent_rawString hfits).map Utf8.decodeLossy

end Strings

/-! ## Objects without members -/

theorem indifferent_textFloat {numeral : Bytes} (hnumeral : numeral.length < 256) :
    Indifferent textFloat [.fixed (shortNumeral numeral)] := by
  have hcount : numeral.length = (UInt8.ofNat numeral.length).toNat :=
    (UInt8.toNat_ofNat_of_lt hnumeral).symm
  show Indifferent textFloat [.fixed ([UInt8.ofNat numeral.length] ++ numeral)]
  apply Indifferent.join
  apply Indifferent.bind_reads (Reads.byte _)
  apply Indifferent.bind_reads (Reads.take hcount)
  split
  · exact .fail _ _
  · split
    · exact .pure _
    · exact .fail _ _

theorem Payload.indifferent {tag : Tag} {payload : Bytes} (h : Payload tag payload)
    (marker : UInt16) (member : Consumer Constant) :
    Indifferent (body marker member tag) [.fixed payload] := by
  cases h with
  | none | «false» | «true» | stopIteration | ellipsis => exact .of_reads (Reads.pure _)
  | int value => exact (Indifferent.of_reads (Reads.int32 value)).map _
  | int64 value => exact (Indifferent.of_reads (Reads.int64 value)).map _
  | textFloat hnumeral => exact (indifferent_textFloat hnumeral).map _
  | float value => exact (Indifferent.of_reads (Reads.binary64 value)).map _
  | textComplex hreal himaginary =>
    apply Indifferent.join
    exact (indifferent_textFloat hreal).bind fun real => (indifferent_textFloat himaginary).map _
  | complex real imaginary =>
    exact .of_reads ((Reads.binary64 real).bind ((Reads.binary64 imaginary).map _))
  | long hdigits => exact .of_reads ((Reads.int32 _).bind ((Reads.take hdigits).map _))
  | unicode hraw => exact .of_reads ((Reads.length hraw).bind ((Reads.take rfl).map _))

/-! ## Containers -/

section Containers

variable {marker : UInt16} {member : Consumer Constant}

theorem indifferent_members {items : List (List Piece)}
    (hitems : ∀ item ∈ items, Indifferent member.read item) :
    Indifferent (members member items.length) items.flatten := by
  induction items with
  | nil => exact .pure []
  | cons item items ih =>
    obtain ⟨hitem, hitems⟩ := List.forall_mem_cons.1 hitems
    rw [List.flatten_cons, List.length_cons, members]
    exact hitem.bind fun first => (ih hitems).map (first :: ·)

theorem skip?_of_starts {bytes : Bytes} (h : StartsObject bytes) (tail : Bytes) (position : Nat)
    (table : Array Bytes) : skip? Tag.null.toByte ⟨bytes ++ tail, position, table⟩ =
      .ok (false, ⟨bytes ++ tail, position, table⟩) := by
  obtain ⟨first, rest, rfl, hfirst⟩ := h
  simp [skip?, hfirst]

theorem Indifferent.skip? {second : Bool → Reader α} {pieces : List Piece}
    (hwrite : StartsObject (write pieces)) (hinlined : StartsObject (write (inlined pieces)))
    (h : Indifferent (second false) pieces) :
    Indifferent (Reader.skip? Tag.null.toByte >>= second) pieces := by
  obtain ⟨outcome, h⟩ := h
  refine ⟨outcome, h.congr ?_ ?_⟩
  · intro tail position table
    exact bind_of_ok (skip?_of_starts hwrite tail position table)
  · intro tail position table
    exact bind_of_ok (skip?_of_starts hinlined tail position table)

theorem StartsObject.append {bytes : Bytes} (h : StartsObject bytes) (tail : Bytes) :
    StartsObject (bytes ++ tail) := by
  obtain ⟨first, rest, rfl, hfirst⟩ := h
  exact ⟨first, rest ++ tail, rfl, hfirst⟩

theorem indifferent_entries {pairs : List (List Piece × List Piece)}
    (hstarts : ∀ pair ∈ pairs, StartsObject (write pair.1) ∧ StartsObject (write (inlined pair.1)))
    (hkeys : ∀ pair ∈ pairs, Indifferent member.read pair.1)
    (hvalues : ∀ pair ∈ pairs, Indifferent member.read pair.2) :
    Indifferent (entries member) (entryPieces pairs) := by
  induction pairs with
  | nil => exact .of_reads (reads_entries_nil member)
  | cons pair pairs ih =>
    obtain ⟨⟨hwrite, hinlined⟩, hstarts⟩ := List.forall_mem_cons.1 hstarts
    obtain ⟨hkey, hkeys⟩ := List.forall_mem_cons.1 hkeys
    obtain ⟨hvalue, hvalues⟩ := List.forall_mem_cons.1 hvalues
    have hpieces : entryPieces (pair :: pairs) = pair.1 ++ (pair.2 ++ entryPieces pairs) := by
      simp [entryPieces]
    rw [entries_eq, hpieces]
    apply Indifferent.skip?
    · rw [write_append]
      exact hwrite.append _
    · rw [inlined_append, write_append]
      exact hinlined.append _
    · exact hkey.bind fun key => hvalue.bind fun value =>
        (ih hstarts hkeys hvalues).map ((key, value) :: ·)

theorem indifferent_constantTable (table : Constant) : Indifferent (constantTable table) [] := by
  unfold constantTable
  split
  · exact .pure _
  · exact .fail _ _

theorem indifferent_nameTable (table : Constant) : Indifferent (nameTable table) [] := by
  unfold nameTable
  split
  · rename_i items
    induction items with
    | nil =>
      rw [List.mapM_nil]
      exact .pure _
    | cons item items ih =>
      have hitem : Indifferent (nameEntry item) [] := by
        unfold nameEntry
        split
        · exact .pure _
        · exact .fail _ _
      rw [List.mapM_cons]
      exact hitem.bind fun name => ih.map (name :: ·)
  · exact .fail _ _

theorem indifferent_firstLine (line : Int32) :
    Indifferent firstLine [.fixed (Word.ofInt32 line)] := by
  apply Indifferent.bind_reads (Reads.int32 line)
  split
  · exact .fail _ _
  · exact .pure _

theorem indifferent_codeHead {parts : CodeParts} (hcode : parts.code.Fits) :
    Indifferent codeHead parts.head := by
  apply Indifferent.bind_reads (Reads.int32 parts.argcount)
  apply Indifferent.bind_reads (Reads.int32 parts.nlocals)
  apply Indifferent.bind_reads (Reads.int32 parts.stacksize)
  apply Indifferent.bind_reads (Reads.int32 parts.flags)
  exact (indifferent_rawString hcode).map _

theorem indifferent_codeTail {parts : CodeParts} (head : CodeHead)
    (consts names varnames freevars cellvars : Constant) (hfilename : parts.filename.Fits)
    (hname : parts.name.Fits) (hlnotab : parts.lnotab.Fits) :
    Indifferent (codeTail marker head consts names varnames freevars cellvars) parts.tail := by
  -- The tables have been read: checking them takes no bytes.
  apply (indifferent_constantTable consts).bind
  intro consts
  apply (indifferent_nameTable names).bind
  intro names
  apply (indifferent_nameTable varnames).bind
  intro varnames
  apply (indifferent_nameTable freevars).bind
  intro freevars
  apply (indifferent_nameTable cellvars).bind
  intro cellvars
  apply (indifferent_string hfilename).bind
  intro filename
  apply (indifferent_string hname).bind
  intro name
  apply (indifferent_firstLine parts.firstLine).bind
  intro firstLine
  exact (indifferent_rawString hlnotab).map _

theorem indifferent_code {parts : CodeParts}
    (hstrings : ∀ spelling ∈ parts.strings, spelling.Fits)
    (htables : ∀ table ∈ parts.tables, Indifferent member.read table) :
    Indifferent (body marker member .code) parts.pieces := by
  simp only [CodeParts.strings, CodeParts.tables, List.forall_mem_cons] at hstrings htables
  obtain ⟨hcode, hfilename, hname, hlnotab, -⟩ := hstrings
  obtain ⟨hconsts, hnames, hvarnames, hfreevars, hcellvars, -⟩ := htables
  apply (indifferent_codeHead hcode).bind
  intro head
  apply hconsts.bind
  intro consts
  apply hnames.bind
  intro names
  apply hvarnames.bind
  intro varnames
  apply hfreevars.bind
  intro freevars
  apply hcellvars.bind
  intro cellvars
  exact (indifferent_codeTail head _ _ _ _ _ hfilename hname hlnotab).map _

end Containers

/-! ## Objects -/

theorem indifferent_level {marker : UInt16} {member : Consumer Constant} {tag : Tag}
    {pieces : List Piece} (h : Indifferent (body marker member tag) pieces) :
    Indifferent (level marker member).read (.fixed [tag.toByte] :: pieces) := by
  apply Indifferent.bind_reads (Reads.byte tag.toByte)
  rw [Tag.ofByte?_toByte]
  exact h

theorem takesString_level (marker : UInt16) (member : Consumer Constant) :
    TakesString (level marker member).read fun raw => .str (Utf8.decodeLossy raw) := by
  intro form rest position table
  show readLevel marker member _ = _
  rw [readLevel, bind_of_ok (byte_cons _ _ _ _), Tag.ofByte?_toByte]
  rfl

/-- Below the limit an object is read level by level, and at the limit it is refused. -/
theorem indifferent_objectAt {marker : UInt16} {depth : Nat} {pieces : List Piece}
    (h : Indifferent (level marker (objectAt marker (depth + 1))).read pieces) :
    Indifferent (objectAt marker depth).read pieces := by
  rcases Nat.lt_or_ge depth maxDepth with hlt | hge
  · rw [objectAt_of_lt marker hlt]
    exact h
  · rw [objectAt_of_ge marker hge]
    exact .fail _ _

/-- An object is read alike in all spellings, at every depth. -/
theorem Encoding.indifferent {pieces : List Piece} (h : Encoding pieces) (marker : UInt16)
    (depth : Nat) : Indifferent (objectAt marker depth).read pieces := by
  -- Members stand one level deeper, so the depth stays open.
  induction h generalizing depth with
  | plain hpayload =>
    apply indifferent_objectAt
    exact indifferent_level (hpayload.indifferent marker _)
  | string hfits =>
    apply indifferent_objectAt
    exact ⟨_, (takesString_level marker _).agrees hfits⟩
  | sequence kind hcount hitems ih =>
    apply indifferent_objectAt
    apply indifferent_level
    apply Indifferent.bind_reads (Reads.length hcount)
    exact (indifferent_members fun item hitem => ih item hitem (depth + 1)).map kind.build
  | dict hkeys hvalues ihkeys ihvalues =>
    apply indifferent_objectAt
    apply indifferent_level
    exact (indifferent_entries (fun pair hpair => (hkeys pair hpair).starts)
      (fun pair hpair => ihkeys pair hpair (depth + 1))
      (fun pair hpair => ihvalues pair hpair (depth + 1))).map Constant.dict
  | code hstrings htables ih =>
    apply indifferent_objectAt
    apply indifferent_level
    exact indifferent_code hstrings fun table htable => ih table htable (depth + 1)

end ImportAtlas.Container
