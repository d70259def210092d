import Mathlib.Tactic.SplitIfs
import TransitFeed.Json.Field
import TransitFeed.Proofs.Text.Decimal

/-!
# Reading back what the JSON printer writes

A reader runs on a cursor over the rest of the text. `Reads r cs rest v` says that from every
cursor whose text is `cs` followed by `rest`, the reader succeeds with `v` and stops before
`rest`; `Fails r cs rest` says that it stops with a fault. Both compose along the binds of a
reader, so each reader's lemma follows its code one step at a time.

With them: the escaped form of every text, between quotes, reads back as the text; the decimal
text of an integer that fits 64 bits reads back as the integer; `true`, `false` and `null` read
as what they name; and a reader that reads a whole text makes it a document.
-/

namespace TransitFeed.JsonRead

/-! ### Running readers -/

/-- Running a bound reader runs the first, then the second from where the first stopped. -/
theorem run_bind (r : Reader α) (f : α → Reader β) (c : Cursor) :
    (ExceptT.run (r >>= f)).run c =
      match (ExceptT.run r).run c with
      | (.ok a, c') => (ExceptT.run (f a)).run c'
      | (.error e, c') => (.error e, c') := by
  simp only [ExceptT.run_bind, StateT.run_bind]
  rcases h : (ExceptT.run r).run c with ⟨_ | _, c'⟩ <;> rfl

/-- Running a reader that catches its faults runs it, then the handler of its fault. -/
theorem run_tryCatch (r : Reader α) (h : Fault → Reader α) (c : Cursor) :
    (ExceptT.run (tryCatch r h)).run c =
      match (ExceptT.run r).run c with
      | (.ok a, c') => (.ok a, c')
      | (.error e, c') => (ExceptT.run (h e)).run c' := by
  show (ExceptT.run (ExceptT.tryCatch r h)).run c = _
  simp only [ExceptT.tryCatch, ExceptT.run_mk, StateT.run_bind]
  have hsame : StateT.run r c = (ExceptT.run r).run c := rfl
  rw [hsame]
  rcases (ExceptT.run r).run c with ⟨_ | _, c'⟩ <;> rfl

/-- A reader reads `v` from the characters `cs` in front of `rest`: from every cursor whose
text is `cs ++ rest`, it succeeds with `v` and stops before `rest`. -/
def Reads (r : Reader α) (cs rest : List Char) (v : α) : Prop :=
  ∀ c : Cursor, c.rest = cs ++ rest →
    ((ExceptT.run r).run c).1 = .ok v ∧ ((ExceptT.run r).run c).2.rest = rest

namespace Reads

variable {cs p q rest : List Char}

theorem bind {r : Reader α} {f : α → Reader β} {a : α} {b : β}
    (h₁ : Reads r p (q ++ rest) a) (h₂ : Reads (f a) q rest b) :
    Reads (r >>= f) (p ++ q) rest b := by
  intro c hc
  obtain ⟨hv, hrest⟩ := h₁ c (by rw [hc, List.append_assoc])
  rw [run_bind]
  rcases hrun : (ExceptT.run r).run c with ⟨_ | a', c'⟩ <;> rw [hrun] at hv hrest
  · cases hv
  · cases hv
    exact h₂ c' hrest

theorem pure (a : α) : Reads (Pure.pure a : Reader α) [] rest a := by
  intro c hc
  exact ⟨rfl, hc⟩

theorem eat (ch : Char) : Reads JsonRead.eat [ch] rest () := by
  intro c hc
  refine ⟨rfl, ?_⟩
  show (Cursor.advance c).rest = rest
  rw [List.singleton_append] at hc
  simp only [Cursor.advance, hc]
  split <;> rfl

theorem peek (ch : Char) : Reads JsonRead.peek [] (ch :: rest) (some ch) := by
  intro c hc
  refine ⟨?_, hc⟩
  show Except.ok c.rest.head? = _
  rw [hc]
  rfl

theorem peek_nil : Reads JsonRead.peek [] [] (none : Option Char) := by
  intro c hc
  refine ⟨?_, hc⟩
  show Except.ok c.rest.head? = _
  rw [hc]
  rfl

/-- Before a character that is not a blank, passing blanks passes nothing. -/
theorem blanks {c : Char} (h : isSpace c = false) : Reads JsonRead.blanks [] (c :: rest) (some c) := by
  intro cur hcur
  have hgo : ∀ n, (blanks.go cur n).rest = c :: rest := by
    intro n
    cases n with
    | zero => exact hcur
    | succ n => simp [blanks.go, hcur, h]
  refine ⟨?_, ?_⟩
  · show Except.ok (blanks.go cur (cur.rest.length + 1)).rest.head? = _
    rw [hgo]
    rfl
  · exact hgo _

/-- At the end of the text, passing blanks finds nothing. -/
theorem blanks_nil : Reads JsonRead.blanks [] [] (none : Option Char) := by
  intro c hc
  have hgo : ∀ n, (blanks.go c n).rest = [] := by
    intro n
    cases n with
    | zero => exact hc
    | succ n => simp [blanks.go, hc]
  refine ⟨?_, ?_⟩
  · show Except.ok (blanks.go c (c.rest.length + 1)).rest.head? = _
    rw [hgo]
    rfl
  · exact hgo _

/-- A reader that reads the same as another reads what the other reads. -/
theorem of_eq {r r' : Reader α} {v : α} (h : Reads r cs rest v) (heq : r = r') : Reads r' cs rest v :=
  heq ▸ h

/-- Reading in two steps, with the characters split where the first step stops. -/
theorem seq {r : Reader α} {f : α → Reader β} {a : α} {b : β} (hcs : cs = p ++ q)
    (h₁ : Reads r p (q ++ rest) a) (h₂ : Reads (f a) q rest b) :
    Reads (r >>= f) cs rest b :=
  hcs ▸ h₁.bind h₂

/-- A keyword is read letter by letter. -/
theorem keyword (ks : List Char) : Reads (JsonRead.keyword ks) ks rest () := by
  induction ks with
  | nil =>
    unfold JsonRead.keyword
    exact Reads.pure ()
  | cons k more ih =>
    unfold JsonRead.keyword
    refine seq (p := []) rfl (Reads.peek k) ?_
    simp only [↓reduceIte]
    exact seq (p := [k]) rfl (Reads.eat k) ih

/-- A reader that succeeds needs no place for a fault. -/
theorem placed {r : Reader α} {v : α} (h : Reads r cs rest v) : Reads (JsonRead.placed r) cs rest v := by
  intro c hc
  obtain ⟨hv, hrest⟩ := h c hc
  unfold JsonRead.placed
  rw [run_tryCatch]
  rcases hrun : (ExceptT.run r).run c with ⟨_ | a', c'⟩ <;> rw [hrun] at hv hrest
  · cases hv
  · exact ⟨hv, hrest⟩

/-- A reader that first looks at the cursor reads what it reads from every cursor of the text. -/
theorem get_bind {f : Cursor → Reader β} {b : β}
    (h : ∀ c : Cursor, c.rest = cs ++ rest → Reads (f c) cs rest b) : Reads (get >>= f) cs rest b := by
  intro c hc
  rw [run_bind]
  exact h c hc c hc

/-- Looking at the next character finds the head of the text. -/
theorem peek_head : Reads JsonRead.peek [] rest rest.head? := by
  intro c hc
  refine ⟨?_, hc⟩
  show Except.ok c.rest.head? = _
  rw [hc]
  rfl

end Reads

/-- A reader fails on the characters `cs` in front of `rest`: from every cursor whose text
is `cs ++ rest`, it stops with a fault. -/
def Fails (r : Reader α) (cs rest : List Char) : Prop :=
  ∀ c : Cursor, c.rest = cs ++ rest → ∃ e, ((ExceptT.run r).run c).1 = .error e

namespace Fails

variable {cs p q rest : List Char}

/-- A reader fails when what it reads first leads to a failing step. -/
theorem seq {r : Reader α} {f : α → Reader β} {a : α} (hcs : cs = p ++ q)
    (h₁ : Reads r p (q ++ rest) a) (h₂ : Fails (f a) q rest) : Fails (r >>= f) cs rest := by
  subst hcs
  intro c hc
  obtain ⟨hv, hrest⟩ := h₁ c (by rw [hc, List.append_assoc])
  rw [run_bind]
  rcases hrun : (ExceptT.run r).run c with ⟨_ | a', c'⟩ <;> rw [hrun] at hv hrest
  · cases hv
  · cases hv
    exact h₂ c' hrest

/-- A reader whose first step fails fails. -/
theorem bind {r : Reader α} {f : α → Reader β} (h : Fails r cs rest) : Fails (r >>= f) cs rest := by
  intro c hc
  obtain ⟨e, he⟩ := h c hc
  rw [run_bind]
  rcases hrun : (ExceptT.run r).run c with ⟨_ | a, c'⟩ <;> rw [hrun] at he
  · exact ⟨e, by cases he; rfl⟩
  · cases he

theorem failValue (message : String) : Fails (JsonRead.failValue message : Reader α) [] rest := by
  intro c _
  exact ⟨_, rfl⟩

/-- A fault placed where it was caught is still a fault. -/
theorem placed {r : Reader α} (h : Fails r cs rest) : Fails (JsonRead.placed r) cs rest := by
  intro c hc
  obtain ⟨e, he⟩ := h c hc
  unfold JsonRead.placed
  rw [run_tryCatch]
  rcases hrun : (ExceptT.run r).run c with ⟨_ | a', c'⟩ <;> rw [hrun] at he
  · rename_i e'
    simp only
    split <;> exact ⟨_, rfl⟩
  · cases he

/-- A value that does not start like `null` makes an optional reader fail where the reader does. -/
theorem readOptional {r : Reader α} {ch : Char} {more : List Char} (hch : ch ≠ 'n')
    (hspace : isSpace ch = false) (h : Fails r (ch :: more) rest) :
    Fails (JsonRead.readOptional r) (ch :: more) rest := by
  unfold JsonRead.readOptional
  refine seq (p := []) rfl (Reads.blanks hspace) ?_
  split
  · rename_i heq
    exact absurd (Option.some.inj heq) hch
  · exact h.bind

/-- A reader that fails on a whole text fails on it as a document. -/
theorem readAll {r : Reader α} {s : String} (h : Fails r s.toList []) : ∃ e, JsonRead.readAll r s = .error e := by
  exact (Fails.bind (f := fun v => do finish; return v) h) (Cursor.start s) (by simp [Cursor.start])

end Fails


/-! ### Strings -/

/-- The escape letters of JSON are read as the characters they stand for. -/
theorem escape_letter {letter ch : Char} {rest : List Char}
    (h : (letter, ch) = ('"', '"') ∨ (letter, ch) = ('\\', '\\') ∨ (letter, ch) = ('n', '\n') ∨
      (letter, ch) = ('r', '\r') ∨ (letter, ch) = ('t', '\t') ∨ (letter, ch) = ('b', Char.ofNat 8) ∨
      (letter, ch) = ('f', Char.ofNat 12)) :
    Reads escape [letter] rest ch := by
  unfold escape
  refine Reads.seq (p := []) rfl (Reads.peek letter) ?_
  rcases h with h | h | h | h | h | h | h <;> simp only [Prod.mk.injEq] at h <;> obtain ⟨rfl, rfl⟩ := h <;>
    exact Reads.seq (p := [_]) rfl (Reads.eat _) (Reads.pure _)

/-- The lowercase hex digits of JSON escapes are single bytes and read as their values. -/
theorem lowerHex_digit : ∀ d, d < 16 →
    hexDigit? (if d < 10 then Char.ofNat (48 + d) else Char.ofNat (87 + d)) = some d ∧
      (if d < 10 then Char.ofNat (48 + d) else Char.ofNat (87 + d)).utf8Size = 1 := by
  decide

/-- Four hex digits `00XX` are read as the byte `XX`. -/
theorem hexEscape_hexByte {n : Nat} (h : n < 256) :
    Reads hexEscape (['0', '0'] ++ (Json.hexByte n).toList) rest n := by
  obtain ⟨hhi, hhi₁⟩ := lowerHex_digit (n / 16 % 16) (Nat.mod_lt _ (by decide))
  obtain ⟨hlo, hlo₁⟩ := lowerHex_digit (n % 16) (Nat.mod_lt _ (by decide))
  unfold hexEscape
  apply Reads.get_bind
  intro c hc
  simp only [Json.hexByte, String.toList_ofList, List.cons_append, List.nil_append] at hc ⊢
  rw [hc]
  simp only [List.take_succ_cons, List.take_zero, List.map_cons, List.map_nil, List.foldr_cons,
    List.foldr_nil, hhi₁, hlo₁, hhi, hlo, show hexDigit? '0' = some 0 by decide,
    show '0'.utf8Size = 1 by decide, show ¬(1 + (1 + (1 + (1 + 0))) < 4) by decide, ↓reduceIte]
  have hvalue : ((0 * 16 + 0) * 16 + n / 16 % 16) * 16 + n % 16 = n := by omega
  rw [hvalue]
  exact Reads.seq (p := [_]) rfl (Reads.eat _) <| Reads.seq (p := [_]) rfl (Reads.eat _) <|
    Reads.seq (p := [_]) rfl (Reads.eat _) <| Reads.seq (p := [_]) rfl (Reads.eat _) (Reads.pure n)

/-- A `\u00XX` escape is read as the character of the byte. -/
theorem escape_unicode {n : Nat} (h : n < 256) :
    Reads escape (['u', '0', '0'] ++ (Json.hexByte n).toList) rest (Char.ofNat n) := by
  have hcode : Reads unicodeEscape (['0', '0'] ++ (Json.hexByte n).toList) rest (Char.ofNat n) := by
    unfold unicodeEscape
    refine Reads.seq (q := []) (by simp) (hexEscape_hexByte h) ?_
    simp only [show ¬(0xDC00 ≤ n ∧ n ≤ 0xDFFF) by omega, show n < 0xD800 ∨ 0xDBFF < n by omega,
      ↓reduceIte]
    exact Reads.pure _
  unfold escape
  refine Reads.seq (p := []) rfl (Reads.peek 'u') ?_
  exact Reads.seq (p := ['u']) rfl (Reads.eat 'u') hcode

/-- The reader of a string body, one step: an escape is read as its character. -/
theorem stringBody_go_escape {e : List Char} {ch : Char} {n : Nat} {acc more : List Char} {v : String}
    (hesc : Reads escape e (more ++ rest) ch) (h : Reads (stringBody.go n (ch :: acc)) more rest v) :
    Reads (stringBody.go (n + 1) acc) ('\\' :: e ++ more) rest v := by
  unfold stringBody.go
  refine Reads.seq (p := []) rfl (Reads.peek '\\') ?_
  exact Reads.seq (p := ['\\']) rfl (Reads.eat _) (Reads.seq rfl hesc h)

/-- The reader of a string body, one step: a character that needs no escape is read as itself. -/
theorem stringBody_go_plain {ch : Char} {n : Nat} {acc more : List Char} {v : String}
    (hquote : ch ≠ '"') (hback : ch ≠ '\\') (hcontrol : 32 ≤ ch.toNat)
    (h : Reads (stringBody.go n (ch :: acc)) more rest v) :
    Reads (stringBody.go (n + 1) acc) (ch :: more) rest v := by
  unfold stringBody.go
  refine Reads.seq (p := []) rfl (Reads.peek ch) ?_
  simp only
  refine Reads.seq (p := [ch]) rfl (Reads.eat _) ?_
  simp only [show ¬ch.toNat < 32 by omega, ↓reduceIte]
  exact h

/-- The reader of a string body reads the escaped form of each character as the character. -/
theorem stringBody_go_escapeChar (ch : Char) {n : Nat} {acc more : List Char} {v : String}
    (h : Reads (stringBody.go n (ch :: acc)) more rest v) :
    Reads (stringBody.go (n + 1) acc) ((Json.escapeChar ch).toList ++ more) rest v := by
  unfold Json.escapeChar
  split
  · exact stringBody_go_escape (e := ['"']) (escape_letter (by simp)) h
  · exact stringBody_go_escape (e := ['\\']) (escape_letter (by simp)) h
  · exact stringBody_go_escape (e := ['n']) (escape_letter (by simp)) h
  · exact stringBody_go_escape (e := ['r']) (escape_letter (by simp)) h
  · exact stringBody_go_escape (e := ['t']) (escape_letter (by simp)) h
  · rename_i hquote hback _ _ _
    have hself := Char.ofNat_toNat ch
    split_ifs with h8 h12 hcontrol
    · rw [beq_iff_eq.mp h8] at hself
      rw [← hself] at h
      exact stringBody_go_escape (e := ['b']) (escape_letter (by simp)) h
    · rw [beq_iff_eq.mp h12] at hself
      rw [← hself] at h
      exact stringBody_go_escape (e := ['f']) (escape_letter (by simp)) h
    · rw [← hself] at h
      have hesc : Reads escape (['u', '0', '0'] ++ (Json.hexByte ch.toNat).toList) (more ++ rest)
          (Char.ofNat ch.toNat) := escape_unicode (by omega)
      have hprefix : "\\u00".toList = ['\\', 'u', '0', '0'] := rfl
      rw [String.toList_append, hprefix]
      exact stringBody_go_escape (e := ['u', '0', '0'] ++ (Json.hexByte ch.toNat).toList) hesc h
    · rw [Char.toString, String.toList_singleton, List.singleton_append]
      exact stringBody_go_plain hquote hback (by omega) h

/-- Every character has a non-empty escaped form. -/
theorem escapeChar_ne_nil (ch : Char) : (Json.escapeChar ch).toList ≠ [] := by
  unfold Json.escapeChar
  split
  any_goals simp
  split_ifs <;> simp [Json.hexByte]

/-- The escaped forms of the characters are at least as many characters. -/
theorem length_le_escaped (cs : List Char) :
    cs.length ≤ (cs.flatMap fun ch => (Json.escapeChar ch).toList).length := by
  induction cs with
  | nil => simp
  | cons ch cs ih =>
    have hne := List.length_pos_iff.mpr (escapeChar_ne_nil ch)
    simp only [List.flatMap_cons, List.length_append, List.length_cons]
    omega

/-- The reader of a string body reads the escaped forms of characters, up to the closing
quote, as the characters, given a step for each. -/
theorem stringBody_go_escaped (cs acc : List Char) (n : Nat) (hn : cs.length < n) :
    Reads (stringBody.go n acc) ((cs.flatMap fun ch => (Json.escapeChar ch).toList) ++ ['"']) rest
      (String.ofList (acc.reverse ++ cs)) := by
  obtain ⟨m, rfl⟩ : ∃ m, n = m + 1 := ⟨n - 1, by omega⟩
  induction cs generalizing acc m with
  | nil =>
    unfold stringBody.go
    refine Reads.seq (p := []) rfl (Reads.peek '"') ?_
    rw [List.append_nil]
    exact Reads.seq (p := ['"']) rfl (Reads.eat _) (Reads.pure _)
  | cons ch cs ih =>
    simp only [List.flatMap_cons, List.append_assoc]
    have hstep := ih (ch :: acc) (m - 1) (by simp at hn; omega)
    rw [show m - 1 + 1 = m by simp at hn; omega] at hstep
    simp only [List.reverse_cons, List.append_assoc, List.singleton_append] at hstep
    exact stringBody_go_escapeChar ch hstep

/-- The body of a JSON string literal is read as the text it was written from. -/
theorem stringBody_quote (s : String) :
    Reads stringBody ((s.toList.flatMap fun ch => (Json.escapeChar ch).toList) ++ ['"']) rest s := by
  unfold stringBody
  apply Reads.get_bind
  intro c hc
  have hlen := length_le_escaped s.toList
  have hbody : Reads (stringBody.go (c.rest.length + 1) [])
      ((s.toList.flatMap fun ch => (Json.escapeChar ch).toList) ++ ['"']) rest
      (String.ofList ([].reverse ++ s.toList)) :=
    stringBody_go_escaped s.toList [] (c.rest.length + 1)
      (by rw [hc]; simp only [List.length_append, List.length_cons, List.length_nil]; omega)
  simpa using hbody

/-- A JSON string literal of a text that the visitor accepts is read as what it makes of it. -/
theorem readText_quote {visit : String → Except String α} {v : α} (expected : String) (s : String)
    (hvisit : visit s = .ok v) : Reads (readText expected visit) (Json.quote s).toList rest v := by
  have hquote : (Json.quote s).toList =
      [] ++ ('"' :: ((s.toList.flatMap fun ch => (Json.escapeChar ch).toList) ++ ['"'])) := by
    simp [Json.quote, String.toList_join, List.flatMap_map]
  rw [hquote]
  unfold readText
  refine Reads.seq rfl (Reads.blanks (c := '"') (by decide)) ?_
  apply Reads.placed
  simp only [↓reduceIte]
  refine Reads.seq (p := ['"']) rfl (Reads.eat _) ?_
  refine Reads.seq (q := []) (by simp) (stringBody_quote s) ?_
  simp only [hvisit]
  exact Reads.pure v

/-- A JSON string literal is read as the text it was written from. -/
theorem readString_quote (s : String) : Reads readString (Json.quote s).toList rest s :=
  readText_quote "a string" s rfl

/-! ### Integers -/

/-- What may follow a number: the end of the text, or a character that carries on no number. -/
def NumberEnd (rest : List Char) : Prop :=
  ∀ ch ∈ rest.head?, ch.isDigit = false ∧ ch ≠ '.' ∧ ch ≠ 'e' ∧ ch ≠ 'E'

/-- Where the integer digits end, the number is a natural, or a negative integer. -/
theorem afterInteger_end (positive : Bool) (sig : Nat) (hsig : positive = false → 0 < sig ∧ sig ≤ Nat.pow 2 63)
    (hend : NumberEnd rest) :
    Reads (afterInteger positive sig) [] rest (if positive then .nat sig else .neg (-(sig : Int))) := by
  unfold afterInteger
  refine Reads.seq (p := []) rfl Reads.peek_head ?_
  have hlast : Reads (if positive = true then pure (Number.nat sig)
      else if sig = 0 ∨ sig > Nat.pow 2 63 then pure (Number.real (-Decimal.nearest false sig 0))
      else pure (Number.neg (-(sig : Int)))) [] rest
      (if positive then .nat sig else .neg (-(sig : Int))) := by
    cases positive with
    | true => exact Reads.pure _
    | false =>
      obtain ⟨h0, hmax⟩ := hsig rfl
      simp only [Bool.false_eq_true, ↓reduceIte, show ¬(sig = 0 ∨ sig > Nat.pow 2 63) by omega]
      exact Reads.pure _
  cases rest with
  | nil => exact hlast
  | cons ch more =>
    obtain ⟨-, hpoint, he, hE⟩ := hend ch rfl
    split
    · rename_i h
      exact absurd (Option.some.inj h) hpoint
    · rename_i h
      exact absurd (Option.some.inj h) he
    · rename_i h
      exact absurd (Option.some.inj h) hE
    · exact hlast

/-- The digits of an integer that fits 64 bits are accumulated to its value. -/
theorem number_go_digits (positive : Bool) (ds : List Char) (hds : ∀ ch ∈ ds, ch.isDigit) {v : Number}
    (sig fuel : Nat) (hfuel : ds.length ≤ fuel) (hmax : Nat.ofDigitChars 10 ds sig ≤ natMax)
    (hend : NumberEnd rest)
    (hafter : Reads (afterInteger positive (Nat.ofDigitChars 10 ds sig)) [] rest v) :
    Reads (number.go positive sig fuel) ds rest v := by
  induction ds generalizing sig fuel with
  | nil =>
    cases fuel with
    | zero => exact hafter
    | succ fuel =>
      unfold number.go
      refine Reads.seq (p := []) rfl Reads.peek_head ?_
      cases rest with
      | nil => exact hafter
      | cons ch more =>
        simp only [List.nil_append, List.head?_cons, (hend ch rfl).1, Bool.false_eq_true, ↓reduceIte]
        exact hafter
  | cons d ds ih =>
    obtain ⟨fuel, rfl⟩ : ∃ k, fuel = k + 1 := ⟨fuel - 1, by simp at hfuel; omega⟩
    have hd : d.isDigit = true := hds d List.mem_cons_self
    rw [Nat.ofDigitChars_cons] at hmax hafter
    have hnext := TransitFeed.le_ofDigitChars ds (10 * sig + (d.toNat - '0'.toNat))
    have hstep : sig * 10 + digit d = 10 * sig + (d.toNat - '0'.toNat) := by
      unfold digit
      omega
    unfold number.go
    refine Reads.seq (p := []) rfl (Reads.peek d) ?_
    simp only [hd, ↓reduceIte, hstep, show ¬(10 * sig + (d.toNat - '0'.toNat) > natMax) by omega]
    exact Reads.seq (p := [d]) rfl (Reads.eat d)
      (ih (fun x hx => hds x (List.mem_cons_of_mem _ hx)) _ fuel (by simp at hfuel; omega) hmax hafter)

/-- The decimal digits of a natural that fits 64 bits are read as it; after a minus sign,
as its negation, which must fit 64 bits too. -/
theorem number_toDigits (positive : Bool) (k : Nat) (hk : k ≤ natMax)
    (hsig : positive = false → 0 < k ∧ k ≤ Nat.pow 2 63) (hend : NumberEnd rest) :
    Reads (number positive) (Nat.toDigits 10 k) rest
      (if positive then .nat k else .neg (-(k : Int))) := by
  have hafter := afterInteger_end positive k hsig hend
  unfold number
  by_cases hzero : k = 0
  · subst hzero
    rw [show Nat.toDigits 10 0 = [] ++ ('0' :: []) from rfl]
    refine Reads.seq rfl (Reads.peek '0') ?_
    refine Reads.seq (p := ['0']) rfl (Reads.eat _) ?_
    refine Reads.seq (p := []) rfl Reads.peek_head ?_
    have hnot : isDigit rest.head? = false := by
      cases rest with
      | nil => rfl
      | cons ch more => exact (hend ch rfl).1
    simp only [List.nil_append, hnot, Bool.false_eq_true, ↓reduceIte]
    exact hafter
  · obtain ⟨d, ds, hds⟩ := List.exists_cons_of_ne_nil (Nat.toDigits_ne_nil (n := k) (b := 10))
    have hd0 := toDigits_head_ne_zero (by omega) hds
    have hdigits : ∀ c ∈ d :: ds, c.isDigit := fun c hc =>
      Nat.isDigit_of_mem_toDigits (b := 10) (n := k) (by decide) (by decide) (by rw [hds]; exact hc)
    have hd : d.isDigit = true := hdigits d List.mem_cons_self
    have hvalue : Nat.ofDigitChars 10 ds (digit d) = k := by
      rw [← Nat.ofDigitChars_ten_toDigits (n := k), hds, Nat.ofDigitChars_cons]
      congr 1
      unfold digit
      omega
    rw [hds]
    refine Reads.seq (p := []) rfl (Reads.peek d) ?_
    simp only [hd, ↓reduceIte]
    refine Reads.seq (p := [d]) rfl (Reads.eat d) ?_
    apply Reads.get_bind
    intro c hc
    refine number_go_digits positive ds (fun x hx => hdigits x (List.mem_cons_of_mem _ hx)) _ _
      (by rw [hc]; simp only [List.length_append]; omega) (by rw [hvalue]; exact hk) hend ?_
    rw [hvalue]
    exact hafter

/-- A digit is no blank between tokens. -/
theorem isSpace_of_isDigit {ch : Char} (h : ch.isDigit) : isSpace ch = false := by
  have hc := Char.isDigit_iff_toNat.mp h
  simp only [Char.reduceToNat] at hc
  simp only [isSpace, Bool.or_eq_false_iff, decide_eq_false_iff_not]
  refine ⟨⟨⟨?_, ?_⟩, ?_⟩, ?_⟩ <;> rintro rfl <;> simp at hc

/-- The decimal text of an integer that fits 64 bits is read as a number of its sign. -/
theorem readNumber_toString (expected : String) {n : Int} (hlo : -Nat.pow 2 63 ≤ n) (hhi : n ≤ natMax)
    (hend : NumberEnd rest) :
    Reads (readNumber expected) (toString n).toList rest (if 0 ≤ n then .nat n.toNat else .neg n) := by
  unfold readNumber
  cases n with
  | ofNat k =>
    obtain ⟨d, ds, hds⟩ := List.exists_cons_of_ne_nil (Nat.toDigits_ne_nil (n := k) (b := 10))
    have hd : d.isDigit = true :=
      Nat.isDigit_of_mem_toDigits (b := 10) (n := k) (by decide) (by decide) (by rw [hds]; simp)
    have htext : (toString (Int.ofNat k)).toList = Nat.toDigits 10 k := by
      simp [toString, Int.repr]
    have hnumber := number_toDigits true k (by simpa using hhi) (by simp) hend
    rw [hds] at hnumber
    rw [htext, hds]
    refine Reads.seq (p := []) rfl (Reads.blanks (c := d) (isSpace_of_isDigit hd)) ?_
    have hminus : d ≠ '-' := by rintro rfl; simp at hd
    -- the match on the first character finds `hminus` in the context
    simp only [hd, ↓reduceIte]
    simpa using hnumber
  | negSucc k =>
    have htext : (toString (Int.negSucc k)).toList = '-' :: Nat.toDigits 10 (k + 1) := by
      simp [toString, Int.repr]
    have h63 : Nat.pow 2 63 = 9223372036854775808 := rfl
    rw [h63, Int.negSucc_eq] at hlo
    have hnumber := number_toDigits false (k + 1) (by unfold natMax; omega)
      (fun _ => ⟨by omega, by rw [h63]; omega⟩) hend
    simp only [Bool.false_eq_true, ↓reduceIte] at hnumber
    have hvalue : (if 0 ≤ Int.negSucc k then Number.nat (Int.negSucc k).toNat else .neg (Int.negSucc k)) =
        .neg (-((k + 1 : Nat) : Int)) := by
      rw [if_neg (by omega)]
      rfl
    rw [htext, hvalue]
    refine Reads.seq (p := []) rfl (Reads.blanks (c := '-') (by decide)) ?_
    exact Reads.seq (p := ['-']) rfl (Reads.eat _) hnumber

/-- The decimal text of an integer of a range within 64 bits is read as the integer. -/
theorem readInteger_toString (expected : String) (r : IntRange) {n : Int} (hn : r.contains n = true)
    (hlo : -Nat.pow 2 63 ≤ n) (hhi : n ≤ natMax) (hend : NumberEnd rest) :
    Reads (JsonRead.readInteger expected r) (toString n).toList rest n := by
  unfold JsonRead.readInteger
  apply Reads.placed
  refine Reads.seq (q := []) (by simp) (readNumber_toString expected hlo hhi hend) ?_
  by_cases h0 : 0 ≤ n
  · simp only [h0, ↓reduceIte]
    refine Reads.seq (p := []) rfl (Reads.pure _) ?_
    simp only [Int.toNat_of_nonneg h0, hn, ↓reduceIte]
    exact Reads.pure n
  · simp only [h0, ↓reduceIte]
    refine Reads.seq (p := []) rfl (Reads.pure _) ?_
    simp only [hn, ↓reduceIte]
    exact Reads.pure n

/-! ### Keywords and whole texts -/

/-- `true` and `false` are read as the flags they name. -/
theorem readBool_text (b : Bool) : Reads readBool (if b then "true" else "false").toList rest b := by
  unfold readBool
  cases b with
  | true =>
    refine Reads.seq (p := []) (q := ['t', 'r', 'u', 'e']) rfl (Reads.blanks (c := 't') (by decide)) ?_
    apply Reads.placed
    exact Reads.seq (p := ['t']) rfl (Reads.eat _) <|
      Reads.seq (q := []) rfl (Reads.keyword _) (Reads.pure _)
  | false =>
    refine Reads.seq (p := []) (q := ['f', 'a', 'l', 's', 'e']) rfl
      (Reads.blanks (c := 'f') (by decide)) ?_
    apply Reads.placed
    exact Reads.seq (p := ['f']) rfl (Reads.eat _) <|
      Reads.seq (q := []) rfl (Reads.keyword _) (Reads.pure _)

/-- `null` is read as nothing by an optional reader. -/
theorem readOptional_null (r : Reader α) : Reads (readOptional r) "null".toList rest none := by
  unfold readOptional
  refine Reads.seq (p := []) (q := ['n', 'u', 'l', 'l']) rfl (Reads.blanks (c := 'n') (by decide)) ?_
  exact Reads.seq (p := ['n']) rfl (Reads.eat _) <|
    Reads.seq (q := []) rfl (Reads.keyword _) (Reads.pure _)

/-- A value that does not start like `null` is read by an optional reader as present. -/
theorem readOptional_some {r : Reader α} {ch : Char} {more : List Char} {v : α} (hch : ch ≠ 'n')
    (hspace : isSpace ch = false) (h : Reads r (ch :: more) rest v) :
    Reads (readOptional r) (ch :: more) rest (some v) := by
  unfold readOptional
  refine Reads.seq (p := []) rfl (Reads.blanks hspace) ?_
  split
  · rename_i heq
    exact absurd (Option.some.inj heq) hch
  · exact Reads.seq (q := []) (by simp) h (Reads.pure _)

/-- Only blanks are left at the end of the text. -/
theorem finish_nil : Reads finish [] [] () := by
  unfold finish
  exact Reads.seq (p := []) rfl Reads.blanks_nil (Reads.pure ())

/-- A reader that reads a whole text reads it as a document. -/
theorem readAll_of_reads {r : Reader α} {s : String} {v : α} (h : Reads r s.toList [] v) :
    readAll r s = .ok v := by
  have hall : Reads (do let v ← r; finish; return v) s.toList [] v :=
    Reads.seq (q := []) (by simp) h (Reads.seq (p := []) rfl finish_nil (Reads.pure v))
  exact (hall (Cursor.start s) (by simp [Cursor.start])).1

end TransitFeed.JsonRead
