import TabStop.Proofs.Token.Lexing

/-!
# Tokens as cuts of a source

What it means that tokens cut a source up, said without the scanning loop: their texts are the
source, the bytes that they span follow each other from the first to the last one of it, and each
token stands where it says and could not be longer. There is just one way to cut a source up so, the
tokens of the source, and a scanner hands them out one by one, whatever it has been asked before.
-/

namespace TabStop

open Token

/-! ## Texts of tokens -/

namespace Token

/-- The characters that tokens stand for. -/
def chars (ts : List Token) : List Char := ts.flatMap fun t => t.text.toList

@[simp] theorem chars_nil : chars [] = [] := rfl

@[simp] theorem chars_cons (t : Token) (ts : List Token) :
    chars (t :: ts) = t.text.toList ++ chars ts := rfl

/-- Nothing of a text is lost. -/
@[simp] theorem chars_lex (cs : List Char) : chars (lex cs) = cs := by
  induction cs using lex_induction with
  | nil => simp
  | token t rest ht hrest ih => rw [lex_text_append ht hrest, chars_cons, ih]

theorem toList_join_text (ts : List Token) : (String.join (ts.map text)).toList = chars ts := by
  induction ts with
  | nil => simp
  | cons t ts ih => simp [String.join_cons, ih]

end Token

/-! ## Cuts -/

namespace LocatedToken

/-- A token stands in a source at the bytes that it spans, its text belongs to its kind, and the
character after it does not go on with it. -/
def StandsIn (t : LocatedToken) (source : String) : Prop :=
  ∃ before after : String, source = before ++ t.token.text ++ after ∧
    t.start = before.utf8ByteSize ∧ t.token.WellFormed ∧ t.token.EndsBefore after.toList

/-- Tokens cut a source up. -/
structure Cuts (source : String) (ts : List LocatedToken) : Prop where
  texts : String.join (ts.map fun t => t.token.text) = source
  /-- Each token starts where the one before it stops, the first one at the first byte of the
  source, and the last one stops after the last byte. -/
  spans : ts.map start ++ [source.utf8ByteSize] = 0 :: ts.map stop
  nonempty : ∀ t ∈ ts, t.start < t.stop
  standsIn : ∀ t ∈ ts, t.StandsIn source

variable {source : String} {t : LocatedToken} {ts us : List LocatedToken} {n : Nat}

theorem StandsIn.start_lt_stop (h : t.StandsIn source) : t.start < t.stop := by
  obtain ⟨_, _, -, -, hwell, -⟩ := h
  have : t.token.text.utf8ByteSize ≠ 0 := by
    simpa [String.utf8ByteSize_eq_zero_iff] using hwell.text_ne_empty
  rw [stop]
  omega

/-! ### The tokens of a source -/

theorem map_token_place (n : Nat) (ts : List Token) : (place n ts).map token = ts := by
  induction ts generalizing n with
  | nil => rfl
  | cons t ts ih => rw [place, List.map_cons, ih]

theorem spans_place (n : Nat) (ts : List Token) :
    (place n ts).map start ++ [n + (String.ofList (chars ts)).utf8ByteSize] =
      n :: (place n ts).map stop := by
  induction ts generalizing n with
  | nil => simp [place]
  | cons t ts ih =>
    have := ih (n + t.text.utf8ByteSize)
    simp only [place, List.map_cons, List.cons_append, stop, chars_cons, ofList_text_append,
      String.utf8ByteSize_append, ← Nat.add_assoc, this]

/-- The tokens of what is left of a source stand in the source. -/
theorem standsIn_place (before : String) (cs : List Char) :
    ∀ t ∈ place before.utf8ByteSize (lex cs), t.StandsIn (before ++ String.ofList cs) := by
  induction cs using lex_induction generalizing before with
  | nil => simp [place]
  | token u rest hu hrest ih =>
    rw [lex_text_append hu hrest, place, ofList_text_append, ← String.append_assoc]
    intro t ht
    rcases List.mem_cons.1 ht with rfl | ht
    · exact ⟨before, String.ofList rest, rfl, rfl, hu, by simpa using hrest⟩
    · rw [← String.utf8ByteSize_append] at ht
      exact ih (before ++ u.text) t ht

theorem cuts_ofSource (source : String) : Cuts source (ofSource source) where
  texts := by
    have htexts : ((ofSource source).map fun t => t.token.text) =
        (Token.ofSource source).map Token.text := by
      rw [← map_token_place 0 (Token.ofSource source), List.map_map]
      rfl
    apply String.toList_injective
    rw [htexts, toList_join_text, Token.ofSource, chars_lex]
  spans := by
    simpa [ofSource, Token.ofSource] using spans_place 0 (Token.ofSource source)
  nonempty := fun t ht => by
    have := standsIn_place "" source.toList t ht
    exact this.start_lt_stop
  standsIn := fun t ht => by
    simpa using standsIn_place "" source.toList t ht

/-! ### No other tokens -/

/-- Of two ways to divide a text, the parts before are equal if they have the same length. -/
theorem append_inj_of_utf8ByteSize {a b c d : String} (h : a ++ b = c ++ d)
    (hsize : a.utf8ByteSize = c.utf8ByteSize) : a = c ∧ b = d := by
  have hlists : a.toList ++ b.toList = c.toList ++ d.toList := by
    simpa using congrArg String.toList h
  -- One of the parts before is the other one and more, and there is no room for more
  have hempty {x y : String} {e : List Char} (he : x.toList = y.toList ++ e)
      (hxy : x.utf8ByteSize = y.utf8ByteSize) : e = [] := by
    have hx : x = y ++ String.ofList e := String.toList_injective (by simpa using he)
    rw [hx, String.utf8ByteSize_append] at hxy
    have : String.ofList e = "" := String.utf8ByteSize_eq_zero_iff.1 (by omega)
    simpa using this
  rcases List.append_eq_append_iff.1 hlists with ⟨e, hc, hb⟩ | ⟨e, ha, hd⟩
  · obtain rfl := hempty hc hsize.symm
    exact ⟨String.toList_injective (by simpa using hc.symm),
      String.toList_injective (by simpa using hb)⟩
  · obtain rfl := hempty ha hsize
    exact ⟨String.toList_injective (by simpa using ha),
      String.toList_injective (by simpa using hd.symm)⟩

/-- Tokens that stand in a source one after the other, from the end of `before` to the end of the
source, are the tokens of what comes after `before`. -/
theorem eq_place {before after : String} (hstand : ∀ t ∈ ts, t.StandsIn (before ++ after))
    (hspans : ts.map start ++ [(before ++ after).utf8ByteSize] =
      before.utf8ByteSize :: ts.map stop) :
    ts = place before.utf8ByteSize (lex after.toList) := by
  induction ts generalizing before after with
  | nil =>
    have : after = "" := by
      apply String.utf8ByteSize_eq_zero_iff.1
      simpa [String.utf8ByteSize_append] using hspans
    simp [this, place]
  | cons t ts ih =>
    obtain ⟨hstart, hspans⟩ : t.start = before.utf8ByteSize ∧
        ts.map start ++ [(before ++ after).utf8ByteSize] = t.stop :: ts.map stop := by
      simpa using hspans
    -- The token stands right behind `before`, so it is the first one there
    obtain ⟨b, a, hsource, hb, hwell, hends⟩ := hstand t (List.mem_cons_self ..)
    rw [String.append_assoc] at hsource
    obtain ⟨rfl, rfl⟩ := append_inj_of_utf8ByteSize hsource (hstart.symm.trans hb)
    have hstop : t.stop = (before ++ t.token.text).utf8ByteSize := by
      rw [stop, hstart, String.utf8ByteSize_append]
    rw [← String.append_assoc] at hstand hspans
    have hmore := ih (fun u hu => hstand u (List.mem_cons_of_mem _ hu)) (hstop ▸ hspans)
    rw [String.toList_append, lex_text_append hwell hends, place, ← String.utf8ByteSize_append,
      ← hmore, ← hstart]

/-- The tokens of a source are the only ones that cut it up. -/
theorem cuts_iff : Cuts source ts ↔ ts = ofSource source := by
  constructor
  · intro h
    have hstand : ∀ t ∈ ts, t.StandsIn ("" ++ source) := by simpa using h.standsIn
    have := eq_place hstand (by simpa using h.spans)
    simpa [ofSource, Token.ofSource] using this
  · rintro rfl
    exact cuts_ofSource source

end LocatedToken

/-! ## Scanners -/

namespace Scanner

/-- What a scanner can be asked to do. -/
inductive Call where
  | reset (source : String)
  | next

/-- A scanner after a call. -/
def call (s : Scanner) : Call → Scanner
  | .reset source => s.reset source
  | .next => s.next.2

/-- A new scanner after calls. -/
def after (calls : List Call) : Scanner := calls.foldl call (start "")

/-- The source that a scanner has been given last, and how often it has been asked for a token since
then. -/
def progress (calls : List Call) : String × Nat :=
  calls.foldl (fun (source, k) c =>
    match c with
    | .reset source => (source, 0)
    | .next => (source, k + 1)) ("", 0)

/-- The bytes that the next answer of a scanner spans; at the end it spans none. -/
def span (s : Scanner) : Nat × Nat :=
  match s.next.1 with
  | some t => (t.start, t.stop)
  | none => (s.offset, s.offset)

/-- A scanner has handed out `k` tokens of a source, or all of them. -/
structure Passed (s : Scanner) (source : String) (k : Nat) : Prop where
  source_eq : s.source = source
  left : LocatedToken.place s.offset (lex s.rest) = (LocatedToken.ofSource source).drop k
  size : s.offset + (String.ofList s.rest).utf8ByteSize = source.utf8ByteSize

variable {s : Scanner} {source : String} {k : Nat}

theorem passed_start (source : String) : (start source).Passed source 0 :=
  ⟨rfl, rfl, by simp [start]⟩

/-- A scanner answers with the first token of what is left. -/
theorem next_cases (s : Scanner) :
    (s.rest = [] ∧ s.next = (none, s)) ∨
      ∃ t rest, s.rest = t.text.toList ++ rest ∧ lex s.rest = t :: lex rest ∧
        s.next = (some ⟨t, s.offset⟩,
          { s with rest := rest, offset := s.offset + t.text.utf8ByteSize }) := by
  cases hfirst : first? s.rest with
  | none =>
    have hlex : lex s.rest = [] := by rw [lex, hfirst]
    have := chars_lex s.rest
    rw [hlex] at this
    exact Or.inl ⟨this.symm, by rw [Scanner.next, hfirst]⟩
  | some cut =>
    have hlex : lex s.rest = cut.token :: lex cut.rest := by rw [lex, hfirst]
    have := chars_lex s.rest
    rw [hlex, chars_cons, chars_lex] at this
    exact Or.inr ⟨cut.token, cut.rest, this.symm, hlex, by rw [Scanner.next, hfirst]; rfl⟩

theorem Passed.next (h : s.Passed source k) : s.next.2.Passed source (k + 1) := by
  have hleft := h.left
  rcases s.next_cases with ⟨hrest, hnext⟩ | ⟨t, rest, hrest, hlex, hnext⟩
  · -- After the last token there is none to hand out, and the scanner stays as it is
    rw [hrest, lex_nil, LocatedToken.place] at hleft
    rw [hnext]
    refine ⟨h.source_eq, ?_, h.size⟩
    rw [hrest, lex_nil, LocatedToken.place, ← List.drop_drop, ← hleft, List.drop_nil]
  · rw [hlex, LocatedToken.place] at hleft
    rw [hnext]
    refine ⟨h.source_eq, ?_, ?_⟩
    · rw [← List.drop_drop, ← hleft]
      rfl
    · have := h.size
      rw [hrest, ofList_text_append, String.utf8ByteSize_append, ← Nat.add_assoc] at this
      exact this

theorem passed_after (calls : List Call) :
    (after calls).Passed (progress calls).1 (progress calls).2 := by
  induction calls using List.reverseRecOn with
  | nil => exact passed_start ""
  | append_singleton calls c ih =>
    simp only [after, progress, List.foldl_append, List.foldl_cons, List.foldl_nil]
    cases c with
    | reset source => exact passed_start source
    | next => exact ih.next

/-- What a scanner answers that has handed out `k` tokens of a source. -/
theorem Passed.answer (h : s.Passed source k) :
    s.next.1 = (LocatedToken.ofSource source)[k]? ∧
      s.span = (((LocatedToken.ofSource source)[k]?).map fun t => (t.start, t.stop)).getD
        (source.utf8ByteSize, source.utf8ByteSize) := by
  have hhead : (LocatedToken.ofSource source)[k]? =
      (LocatedToken.place s.offset (lex s.rest)).head? := by
    rw [h.left, List.head?_drop]
  have hnext : s.next.1 = (LocatedToken.ofSource source)[k]? := by
    rw [hhead]
    rcases s.next_cases with ⟨hrest, hnext⟩ | ⟨t, rest, -, hlex, hnext⟩
    · rw [hnext, hrest, lex_nil]
      rfl
    · rw [hnext, hlex]
      rfl
  refine ⟨hnext, ?_⟩
  -- The span is that of the next token, or else the end of the source
  rw [span, ← hnext]
  rcases s.next_cases with ⟨hrest, hs⟩ | ⟨t, rest, -, -, hs⟩
  · have := h.size
    rw [hrest, String.ofList_nil, String.utf8ByteSize_empty, Nat.add_zero] at this
    rw [hs, this]
    rfl
  · rw [hs]
    rfl

/-- Whatever a scanner has been asked: its tokens are those of the source that it was given last,
in order, then none, and at the end it spans no more bytes. And the tokens of a source are the only
ones that cut it up. -/
theorem answers_cut (calls : List Call) :
    let source := (progress calls).1
    let k := (progress calls).2
    let tokens := LocatedToken.ofSource source
    let s := after calls
    (∀ ts, LocatedToken.Cuts source ts ↔ ts = tokens) ∧
      s.source = source ∧ s.next.1 = tokens[k]? ∧
      s.span = ((tokens[k]?).map fun t => (t.start, t.stop)).getD
        (source.utf8ByteSize, source.utf8ByteSize) := by
  have h := passed_after calls
  exact ⟨fun ts => LocatedToken.cuts_iff, h.source_eq, h.answer⟩

end Scanner

end TabStop
