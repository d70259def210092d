import TransitFeed.Store.TextFeed

/-!
# Byte order marks and short reads

Before the header of a file, its first three bytes are read ahead to look for a byte order
mark. Reads may be interrupted or hand over fewer bytes than asked, as a plan of replies says;
the look-ahead reads again until it has three bytes or the file ends.

Whatever the plan, the look-ahead reads exactly the first three bytes of the file, or all of a
shorter file, and fails only on the fault of a file shorter than three bytes. So the csv reader
is handed the file without one leading byte order mark, and the file unchanged when it does
not start with one; opening a file does not depend on how its reads are split, and reports an
empty file exactly when that stream is empty or the names of its header are all empty. Main
statement: `openTable_reads_past_byteOrderMark`.
-/

namespace TransitFeed

namespace FileContent

/-- The look-ahead after one read. -/
theorem lookAhead_of_read {c c' : FileContent} {got : List UInt8} {plan : List ReadReply}
    {res : ReadResult} (h : c.read (3 - got.length) (plan.headD (.upTo 3)) = (res, c')) :
    c.lookAhead got plan =
      match res with
      | .interrupted => c'.lookAhead got plan.tail
      | .failed f => .error f
      | .bytes [] => .ok (got, c')
      | .bytes (b :: bs) =>
        if got.length + (b :: bs).length < 3 then c'.lookAhead (got ++ b :: bs) plan.tail
        else .ok (got ++ b :: bs, c') := by
  rw [lookAhead]
  split
  all_goals
    rename_i hres
    rw [h] at hres
    obtain ⟨rfl, rfl⟩ := Prod.mk.inj hres
    rfl

/-- What the look-ahead gives, whatever the plan: the first bytes still wanted and the content
after them, or, for a file that ends before, all its bytes, or its fault if it has one. -/
def lookedAhead (c : FileContent) (got : List UInt8) : Except String (List UInt8 × FileContent) :=
  if 3 - got.length ≤ c.bytes.length then
    .ok (got ++ c.bytes.take (3 - got.length), { c with bytes := c.bytes.drop (3 - got.length) })
  else
    match c.fault with
    | some f => .error f
    | none => .ok (got ++ c.bytes, { c with bytes := [] })

/-- Bytes read off the front of a file that is not over leave the look-ahead's answer as it was.
-/
theorem lookedAhead_of_take {c c' : FileContent} {got bs : List UInt8} (hc : c.bytes = bs ++ c'.bytes)
    (hfault : c'.fault = c.fault) (hfew : got.length + bs.length < 3) :
    c'.lookedAhead (got ++ bs) = c.lookedAhead got := by
  obtain ⟨bytes, fault⟩ := c
  obtain ⟨rest, fault'⟩ := c'
  simp only at hc hfault
  subst hc hfault
  unfold lookedAhead
  simp only [List.length_append, List.take_append, List.drop_append, List.append_assoc]
  by_cases hwant : 3 - got.length ≤ bs.length + rest.length
  · -- the bytes still wanted reach into the rest
    have hrest : 3 - (got.length + bs.length) ≤ rest.length := by omega
    have htake : 3 - got.length - bs.length = 3 - (got.length + bs.length) := by omega
    simp [hwant, hrest, htake, List.take_of_length_le (by omega : bs.length ≤ 3 - got.length),
      List.drop_eq_nil_of_le (by omega : bs.length ≤ 3 - got.length)]
  · have hrest : ¬3 - (got.length + bs.length) ≤ rest.length := by omega
    simp [hwant, hrest]

/-- The look-ahead reads exactly the first three bytes, or the whole of a shorter file, with its
fault; how the reads are split does not matter. -/
theorem lookAhead_eq (c : FileContent) (got : List UInt8) (plan : List ReadReply)
    (hgot : got.length < 3) : c.lookAhead got plan = c.lookedAhead got := by
  induction c, got, plan using lookAhead.induct with
  | case1 c got plan c' hread ih =>
    -- an interrupted read changes nothing
    obtain ⟨-, rfl⟩ := read_interrupted hread
    rw [lookAhead_of_read hread]
    exact ih hgot
  | case2 c got plan f c' hread =>
    obtain ⟨hnil, hfault⟩ := read_failed hread
    rw [lookAhead_of_read hread]
    simp [lookedAhead, hnil, hfault]
    omega
  | case3 c got plan c' hread =>
    -- no byte: the file is over, and has no fault
    obtain ⟨hc, hfault, -, hend⟩ := read_bytes hread
    obtain ⟨hnil, hnone⟩ := hend rfl
    rw [lookAhead_of_read hread]
    obtain ⟨bytes, fault⟩ := c
    obtain ⟨rest, fault'⟩ := c'
    simp only [List.nil_append] at hnil hnone hc hfault
    subst hnil hnone hc hfault
    simp only [lookedAhead, List.length_nil, List.append_nil]
    rw [if_neg (by omega)]
  | case4 c got plan b bs c' hread hfew ih =>
    obtain ⟨hc, hfault, -, -⟩ := read_bytes hread
    rw [lookAhead_of_read hread]
    simp only [hfew, ↓reduceIte]
    rw [ih (by simpa using hfew), lookedAhead_of_take hc hfault hfew]
  | case5 c got plan b bs c' hread hmany =>
    -- the read filled the room, which was what the look-ahead still wanted
    obtain ⟨hc, hfault, hroom, -⟩ := read_bytes hread
    have hlen := hroom (by omega)
    rw [lookAhead_of_read hread]
    simp only [hmany, ↓reduceIte]
    have hwant : (b :: bs).length = 3 - got.length := by omega
    obtain ⟨bytes, fault⟩ := c
    obtain ⟨rest, fault'⟩ := c'
    simp only at hc hfault
    subst hc hfault
    simp [lookedAhead, ← hwant]

/-- The stream handed to the csv reader, whatever the plan: the file without the byte order
mark it starts with, if it does; nothing for a file with no byte; the fault of a file shorter
than three bytes. -/
theorem csvStream_eq (c : FileContent) (plan : List ReadReply) :
    c.csvStream plan =
      if c.bytes.length < 3 ∧ c.fault.isSome then .error (c.fault.getD "")
      else if c.bytes = [] then .ok none
      else .ok (some { c with bytes := withoutMark c.bytes }) := by
  obtain ⟨bytes, fault⟩ := c
  unfold csvStream
  rw [lookAhead_eq _ _ _ (by decide)]
  unfold lookedAhead
  simp only [List.length_nil, Nat.sub_zero, List.nil_append]
  by_cases hthree : 3 ≤ bytes.length
  · -- three bytes are read and put back unless they are the mark
    have hne : bytes ≠ [] := by
      rintro rfl
      simp at hthree
    have htake : bytes.take 3 ≠ [] := by simp [List.take_eq_nil_iff, hne]
    simp only [hthree, ↓reduceIte, List.isEmpty_eq_false_iff.mpr htake, Bool.false_eq_true,
      show ¬(bytes.length < 3) by omega, false_and, hne, withoutMark]
    split
    · simp
    · simp [List.take_append_drop]
  · -- a shorter file is read whole, or stops at its fault
    rw [if_neg hthree]
    cases fault with
    | some f => simp [show bytes.length < 3 by omega]
    | none =>
      -- it is no mark, which has three bytes
      have hmark : (bytes == byteOrderMark) = false := by
        rw [beq_eq_false_iff_ne]
        rintro rfl
        exact hthree (by decide)
      have htake : bytes.take 3 = bytes := List.take_of_length_le (by omega)
      cases bytes with
      | nil => simp
      | cons b bs => simp [withoutMark, htake, hmark]

end FileContent

/-- The names of the header of a stream: the fields of its first record, decoded and cut of
their blanks; no name when it has no record. -/
def headerNames (bytes : List UInt8) : Except (Nat × Nat) (List String) :=
  let header := match Csv.records bytes with
    | h :: _ => h.fields
    | [] => []
  (decodeFields header).map (·.map trimBlanks)

/-- An empty stream has a header of no name. -/
theorem headerNames_nil : headerNames [] = .ok [] := rfl

/-- The scan of a header fails only on a repeated name. -/
theorem ColumnMap.build_scan_error (k : Kind) (file : String) (seen hs : List String) :
    ∀ e, ColumnMap.build.scan k file seen hs = .error e → ∃ h, e = .duplicateColumn file h := by
  induction hs generalizing seen with
  | nil => simp [ColumnMap.build.scan]
  | cons h rest ih =>
    intro e he
    unfold ColumnMap.build.scan at he
    split at he
    · exact ⟨h, (Except.error.inj he).symm⟩
    · cases hr : ColumnMap.build.scan k file (h :: seen) rest with
      | error e' =>
        rw [hr] at he
        cases he
        exact ih _ _ hr
      | ok cols => simp [hr, Except.map] at he

/-- Matching a header against a kind's columns fails only on a repeated or a missing column. -/
theorem ColumnMap.build_ne_emptyFile (k : Kind) (file : String) (headers : List String) (f : String) :
    ColumnMap.build k file headers ≠ .error (.emptyFile f) := by
  unfold ColumnMap.build
  intro h
  split at h
  · rename_i e he
    obtain ⟨_, rfl⟩ := ColumnMap.build_scan_error k file _ _ _ he
    cases h
  · split at h <;> cases h

/-- A stream without fault is reported empty exactly when the names of its header are all
empty. -/
theorem openTable_emptyFile_iff {k : Kind} {c : FileContent} {plan : List ReadReply} {s : FileContent}
    (hs : c.csvStream plan = .ok (some s)) (hfault : s.fault = none) :
    openTable k c plan = .error (.emptyFile k.fileName) ↔
      ∃ names, headerNames s.bytes = .ok names ∧ ∀ n ∈ names, n = "" := by
  unfold openTable headerNames
  rw [hs]
  simp only [bind, Except.bind, pure, Except.pure, throw, throwThe, MonadExceptOf.throw, hfault,
    Option.isSome_none, Bool.false_eq_true, ↓reduceIte, Option.map_none]
  cases hr : Csv.records s.bytes with
  | nil => simp [decodeFields, decodeFields.go, Except.map]
  | cons h rows =>
    cases hd : decodeFields h.fields with
    | error e =>
      obtain ⟨i, v⟩ := e
      simp [hd, Except.map]
    | ok names =>
      simp only [hd, Except.map, Except.ok.injEq, exists_eq_left']
      -- the names are all empty, or the header is matched against the columns, which never
      -- reports an empty file
      by_cases hall : (names.map trimBlanks).all String.isEmpty = true
      · rw [if_pos hall]
        simpa [String.isEmpty_iff] using hall
      · rw [if_neg hall]
        have hbuild := ColumnMap.build_ne_emptyFile k k.fileName (names.map trimBlanks) k.fileName
        have hnot : ¬∀ n ∈ names.map trimBlanks, n = "" := by
          simpa [String.isEmpty_iff] using hall
        simp only [hnot, iff_false]
        split
        · rename_i e he
          rw [he] at hbuild
          simpa using hbuild
        · simp

/-- Opening a file does not depend on how its first reads are split. -/
theorem openTable_plan (k : Kind) (c : FileContent) (plan : List ReadReply) :
    openTable k c plan = openTable k c := by
  unfold openTable
  rw [FileContent.csvStream_eq, FileContent.csvStream_eq]

/-- However the reads of a file's bytes are split and interrupted, the csv reader is handed
the bytes without the byte order mark they start with, if they do, and unchanged otherwise;
opening the file gives what one whole read gives; and it reports an empty file exactly when
that stream is empty or the names of its header are all empty. -/
theorem openTable_reads_past_byteOrderMark (k : Kind) (b : List UInt8) (plan : List ReadReply) :
    FileContent.csvStream ⟨b, none⟩ plan = .ok (if b = [] then none else some ⟨withoutMark b, none⟩) ∧
      openTable k ⟨b, none⟩ plan = openTable k ⟨b, none⟩ ∧
      (openTable k ⟨b, none⟩ plan = .error (.emptyFile k.fileName) ↔
        withoutMark b = [] ∨ ∃ names, headerNames (withoutMark b) = .ok names ∧ ∀ n ∈ names, n = "") := by
  have hstream : FileContent.csvStream ⟨b, none⟩ plan =
      .ok (if b = [] then none else some ⟨withoutMark b, none⟩) := by
    rw [FileContent.csvStream_eq]
    by_cases hb : b = [] <;> simp [hb]
  refine ⟨hstream, openTable_plan k _ plan, ?_⟩
  by_cases hb : b = []
  · -- a file with no byte is empty
    subst hb
    have hopen : openTable k ⟨[], none⟩ plan = .error (.emptyFile k.fileName) := by
      unfold openTable
      rw [hstream]
      rfl
    simp [hopen, withoutMark]
  · -- otherwise the stream is the file without its mark, whose header decides
    rw [if_neg hb] at hstream
    rw [openTable_emptyFile_iff hstream rfl]
    refine (or_iff_right_of_imp fun hnil => ?_).symm
    exact ⟨[], by rw [hnil, headerNames_nil], by simp⟩

end TransitFeed
