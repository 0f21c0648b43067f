import StreamPlan.Json.Reader
import StreamPlan.Proofs.Json.Literals

/-!
# Values are read back

A value that is written down, in either layout, is read back as it was.  Writer and reader
meet at the tokens of the value: the lexer cuts the text of a value into its tokens,
wherever the layout puts blanks, and the machine builds the value from its tokens,
whatever stands open around it.

Two kinds of value are not read back and are left out.  Fractions go through decimal text,
and so do integers beyond 64-bit words.  An unreadable literal is written as null.

## Main definitions

* `Json.isExact` — the values that are read back.
* `Json.tokens` — the tokens of a value.
* `Layout.IsBlank` — a layout adds nothing but blanks.

## Main results

* `Json.inductionOn` — induction on values, with a hypothesis for every item and field.
* `Json.cut` — **the text of a value is cut into its tokens.**
* `Json.assembled` — **the tokens of a value make the value.**
* `Json.read?_write` — **a value is read back from its text in any layout.**
* `Json.write_inj` — so different values have different texts.
-/

namespace StreamPlan

/-- Items that are read back one by one are read back in a row. -/
theorem mapM_map_eq_some {α β : Type} {f : α → β} {g : β → Option α} {xs : List α}
    (h : ∀ x ∈ xs, g (f x) = some x) : (xs.map f).mapM g = some xs := by
  induction xs with
  | nil => rfl
  | cons x xs ih =>
    have hx := h x List.mem_cons_self
    have hxs := ih fun x' hx' => h x' (List.mem_cons_of_mem x hx')
    rw [List.map_cons, List.mapM_cons, hx, hxs]
    rfl

namespace Json

/-! ### Induction -/

/-- Induction on values, with a hypothesis for every item and for every field. -/
@[elab_as_elim]
theorem inductionOn {motive : Json → Prop} (v : Json) (null : motive .null)
    (bool : ∀ b, motive (.bool b)) (num : ∀ n, motive (.num n)) (str : ∀ s, motive (.str s))
    (arr : ∀ items, (∀ item ∈ items, motive item) → motive (.arr items))
    (obj : ∀ fields, (∀ field ∈ fields, motive field.2) → motive (.obj fields))
    (unreadable : motive .unreadable) : motive v := by
  induction hsize : sizeOf v using Nat.strongRecOn generalizing v with
  | ind size ih =>
    subst hsize
    cases v with
    | null => exact null
    | bool b => exact bool b
    | num n => exact num n
    | str s => exact str s
    | unreadable => exact unreadable
    | arr items =>
      refine arr items fun item hitem => ih (sizeOf item) ?_ item rfl
      have hlt := List.sizeOf_lt_of_mem hitem
      simp only [Json.arr.sizeOf_spec]
      omega
    | obj fields =>
      refine obj fields fun field hfield => ih (sizeOf field.2) ?_ field.2 rfl
      have hlt := List.sizeOf_lt_of_mem hfield
      have hpair : sizeOf field.2 < sizeOf field := by
        obtain ⟨key, value⟩ := field
        simp only [Prod.mk.sizeOf_spec]
        omega
      simp only [Json.obj.sizeOf_spec]
      omega

/-! ### Exact values and their tokens -/

mutual

/-- The value has no fractions, no integers beyond the range of 64-bit words of either
sign, and nothing unreadable. -/
def isExact : Json → Bool
  | .num (.int n) => decide (-0x8000000000000000 ≤ n ∧ n < UInt64.size)
  | .num (.double _) => false
  | .num (.single _) => false
  | .arr items => isExactItems items
  | .obj fields => isExactFields fields
  | .unreadable => false
  | .null => true
  | .bool _ => true
  | .str _ => true

/-- Every item is exact. -/
def isExactItems : List Json → Bool
  | [] => true
  | item :: rest => isExact item && isExactItems rest

/-- Every field's value is exact. -/
def isExactFields : List (String × Json) → Bool
  | [] => true
  | (_, value) :: rest => isExact value && isExactFields rest

end

theorem isExactItems_iff {items : List Json} :
    isExactItems items = true ↔ ∀ item ∈ items, item.isExact = true := by
  induction items with
  | nil => simp [isExactItems]
  | cons item rest ih => simp [isExactItems, ih]

theorem isExactFields_iff {fields : List (String × Json)} :
    isExactFields fields = true ↔ ∀ field ∈ fields, field.2.isExact = true := by
  induction fields with
  | nil => simp [isExactFields]
  | cons field rest ih => simp [isExactFields, ih]

mutual

/-- The tokens of a value. -/
def tokens : Json → List Token
  | .null => [.null]
  | .unreadable => [.null]
  | .bool b => [.bool b]
  | .num n => [.num (some n)]
  | .str s => [.str (some s)]
  | .arr [] => [.openBracket, .closeBracket]
  | .arr (item :: items) => .openBracket :: (tokens item ++ tokensOfItems items)
  | .obj [] => [.openBrace, .closeBrace]
  | .obj ((key, value) :: fields) =>
    .openBrace :: .str (some key) :: .colon :: (tokens value ++ tokensOfFields fields)

/-- The tokens of the further items of an array and its end. -/
def tokensOfItems : List Json → List Token
  | [] => [.closeBracket]
  | item :: items => .comma :: (tokens item ++ tokensOfItems items)

/-- The tokens of the further fields of an object and its end. -/
def tokensOfFields : List (String × Json) → List Token
  | [] => [.closeBrace]
  | (key, value) :: fields =>
    .comma :: .str (some key) :: .colon :: (tokens value ++ tokensOfFields fields)

end

end Json

/-! ### Cutting a text into tokens -/

/-- The layout adds nothing but blanks. -/
structure Layout.IsBlank (l : Layout) : Prop where
  gap : ∀ depth, ∀ c ∈ l.gap depth, Token.isBlank c = true
  afterColon : ∀ c ∈ l.afterColon, Token.isBlank c = true

theorem Layout.isBlank_compact : Layout.compact.IsBlank where
  gap := by simp [Layout.compact]
  afterColon := by simp [Layout.compact]

theorem Layout.isBlank_pretty : Layout.pretty.IsBlank where
  gap := by
    intro depth c hc
    rcases List.mem_cons.mp hc with rfl | hc
    · rfl
    · rw [List.eq_of_mem_replicate hc]
      rfl
  afterColon := by simp [Layout.pretty, Token.isBlank]

namespace Token

theorem lex_of_finished {done : List Token} {cs : List Char} (h : next cs = .finished) :
    lex done cs = some done.reverse := by
  rw [lex]
  split <;> simp_all

theorem lex_of_invalid {done : List Token} {cs : List Char} (h : next cs = .invalid) :
    lex done cs = none := by
  rw [lex]
  split <;> simp_all

/-- The lexer goes on after a token. -/
theorem lex_of_next {done : List Token} {cs rest : List Char} {t : Token}
    (h : next cs = .token t rest) : lex done cs = lex (t :: done) rest := by
  rw [lex]
  split <;> simp_all

theorem next_of_start {c : Char} {cs rest : List Char} {t : Token} (hc : isBlank c = false)
    (h : start c cs = some (t, rest)) : next (c :: cs) = .token t rest := by
  rw [next, if_neg (by simp [hc]), h]

theorem next_blanks {blanks : List Char} (h : ∀ c ∈ blanks, isBlank c = true)
    (cs : List Char) : next (blanks ++ cs) = next cs := by
  induction blanks with
  | nil => rfl
  | cons c blanks ih =>
    rw [List.cons_append, next, if_pos (h c List.mem_cons_self)]
    exact ih fun c' hc' => h c' (List.mem_cons_of_mem c hc')

/-- Blanks before a token change nothing. -/
theorem lex_blanks {blanks : List Char} (h : ∀ c ∈ blanks, isBlank c = true)
    (done : List Token) (cs : List Char) : lex done (blanks ++ cs) = lex done cs := by
  have hnext := next_blanks h cs
  cases hcs : next cs with
  | finished => rw [lex_of_finished (hnext.trans hcs), lex_of_finished hcs]
  | invalid => rw [lex_of_invalid (hnext.trans hcs), lex_of_invalid hcs]
  | token t rest => rw [lex_of_next (hnext.trans hcs), lex_of_next hcs]

theorem lex_of_start {done : List Token} {c : Char} {cs rest : List Char} {t : Token}
    (hc : isBlank c = false) (h : start c cs = some (t, rest)) :
    lex done (c :: cs) = lex (t :: done) rest :=
  lex_of_next (next_of_start hc h)

theorem lex_quoteOnto (done : List Token) (s : String) (rest : List Char) :
    lex done (Json.quoteOnto s rest) = lex (.str (some s) :: done) rest := by
  refine lex_of_start rfl ?_
  have hscan := scanString_foldr_escapeOnto [] s.toList rest
  simp only [List.reverse_nil, List.nil_append, String.ofList_toList] at hscan
  simp only [start, Utf16Text.empty, hscan, Option.map_some]

/-- A digit or a sign starts a number. -/
theorem start_number {c : Char} (hc : c.isDigit = true ∨ c = '-') (cs : List Char) :
    start c cs = (NumberLiteral.scan (c :: cs)).map fun (l, left) => (.num l.value?, left) := by
  unfold start
  split
  case h_11 => rfl
  all_goals
    rcases hc with hdigit | heq
    · exact absurd hdigit (by decide)
    · exact absurd heq (by decide)

theorem isBlank_of_isDigit {c : Char} (hc : c.isDigit = true) : isBlank c = false := by
  rw [Bool.eq_false_iff]
  intro hblank
  simp only [isBlank, Bool.or_eq_true, beq_iff_eq] at hblank
  rcases hblank with ((rfl | rfl) | rfl) | rfl <;> exact absurd hc (by decide)

theorem lex_numberOnto (done : List Token) {n : Int} {rest : List Char}
    (hn : -0x8000000000000000 ≤ n ∧ n < UInt64.size) (hrest : endsNumber rest = true) :
    lex done (Json.numberOnto (.int n) rest) = lex (.num (some (.int n)) :: done) rest := by
  obtain ⟨hlow, hhigh⟩ := hn
  cases n with
  | ofNat k =>
    have hk : k < UInt64.size := Int.ofNat_lt.mp hhigh
    have hscan := NumberLiteral.scan_toDigits k hrest
    obtain ⟨c, cs, hcs, hdigit⟩ := exists_isDigit_toDigits k
    have hvalue := NumberLiteral.value?_toDigits hk
    simp only [Json.numberOnto]
    rw [hcs, List.cons_append] at hscan ⊢
    refine lex_of_start (isBlank_of_isDigit hdigit) ?_
    rw [hcs] at hvalue
    rw [start_number (.inl hdigit), hscan, Option.map_some]
    dsimp only
    rw [hvalue]
  | negSucc k =>
    have hk : k < 0x8000000000000000 := by omega
    simp only [Json.numberOnto]
    refine lex_of_start rfl ?_
    rw [start_number (.inr rfl), NumberLiteral.scan_neg_toDigits (k + 1) hrest, Option.map_some]
    dsimp only
    rw [NumberLiteral.value?_neg_toDigits hk]

end Token

theorem endsNumber_blanks {blanks cs : List Char} (h : ∀ c ∈ blanks, Token.isBlank c = true)
    (hcs : endsNumber cs = true) : endsNumber (blanks ++ cs) = true := by
  cases blanks with
  | nil => exact hcs
  | cons c blanks =>
    have hc := h c List.mem_cons_self
    simp only [Token.isBlank, Bool.or_eq_true, beq_iff_eq] at hc
    rcases hc with ((rfl | rfl) | rfl) | rfl <;> rfl

namespace Json

/-- The text of a value is cut into its tokens, at any depth and in front of any text. -/
def Cut (l : Layout) (v : Json) : Prop :=
  ∀ (depth : Nat) (done : List Token) (rest : List Char), endsNumber rest = true →
    Token.lex done (v.writeOnto l depth rest) = Token.lex (v.tokens.reverse ++ done) rest

section Cut

variable {l : Layout} (hl : l.IsBlank)
include hl

theorem endsNumber_writeItemsOnto (depth : Nat) (items : List Json) (rest : List Char) :
    endsNumber (writeItemsOnto l depth items rest) = true := by
  cases items with
  | nil => exact endsNumber_blanks (hl.gap depth) rfl
  | cons item items => rfl

theorem endsNumber_writeFieldsOnto (depth : Nat) (fields : List (String × Json))
    (rest : List Char) : endsNumber (writeFieldsOnto l depth fields rest) = true := by
  cases fields with
  | nil => exact endsNumber_blanks (hl.gap depth) rfl
  | cons field fields => rfl

theorem lex_writeItemsOnto {items : List Json} (h : ∀ item ∈ items, item.Cut l) (depth : Nat)
    (done : List Token) (rest : List Char) :
    Token.lex done (writeItemsOnto l depth items rest) =
      Token.lex ((tokensOfItems items).reverse ++ done) rest := by
  induction items generalizing done with
  | nil =>
    rw [writeItemsOnto, Token.lex_blanks (hl.gap depth)]
    exact Token.lex_of_start rfl rfl
  | cons item items ih =>
    have hitem := h item List.mem_cons_self
    have hitems := ih fun item' hitem' => h item' (List.mem_cons_of_mem item hitem')
    rw [writeItemsOnto, Token.lex_of_start rfl rfl, Token.lex_blanks (hl.gap (depth + 1)),
      hitem (depth + 1) _ _ (endsNumber_writeItemsOnto hl depth items rest), hitems]
    simp [tokensOfItems]

/-- A key, its colon and its value. -/
theorem lex_field {value : Json} (h : value.Cut l) (key : String) (depth : Nat)
    (done : List Token) {rest : List Char} (hrest : endsNumber rest = true) :
    Token.lex done (l.gap depth ++ quoteOnto key (':' :: (l.afterColon ++
        value.writeOnto l depth rest))) =
      Token.lex (value.tokens.reverse ++ (.colon :: .str (some key) :: done)) rest := by
  rw [Token.lex_blanks (hl.gap depth), Token.lex_quoteOnto, Token.lex_of_start rfl rfl,
    Token.lex_blanks hl.afterColon, h depth _ _ hrest]

theorem lex_writeFieldsOnto {fields : List (String × Json)}
    (h : ∀ field ∈ fields, field.2.Cut l) (depth : Nat) (done : List Token) (rest : List Char) :
    Token.lex done (writeFieldsOnto l depth fields rest) =
      Token.lex ((tokensOfFields fields).reverse ++ done) rest := by
  induction fields generalizing done with
  | nil =>
    rw [writeFieldsOnto, Token.lex_blanks (hl.gap depth)]
    exact Token.lex_of_start rfl rfl
  | cons field fields ih =>
    obtain ⟨key, value⟩ := field
    have hvalue := h (key, value) List.mem_cons_self
    have hfields := ih fun field' hfield' => h field' (List.mem_cons_of_mem _ hfield')
    rw [writeFieldsOnto, Token.lex_of_start rfl rfl,
      lex_field hl hvalue key _ _ (endsNumber_writeFieldsOnto hl depth fields rest), hfields]
    simp [tokensOfFields]

/-- **The text of an exact value is cut into the tokens of the value.** -/
theorem cut (v : Json) (hv : v.isExact = true) : v.Cut l := by
  induction v using inductionOn with
  | null => exact fun depth done rest _ => Token.lex_of_start rfl rfl
  | bool b =>
    intro depth done rest _
    cases b with
    | true => exact Token.lex_of_start rfl rfl
    | false => exact Token.lex_of_start rfl rfl
  | num n =>
    intro depth done rest hrest
    cases n with
    | int n => exact Token.lex_numberOnto done (of_decide_eq_true hv) hrest
    | double x => cases hv
    | single x => cases hv
  | str s => exact fun depth done rest _ => Token.lex_quoteOnto done s rest
  | unreadable => cases hv
  | arr items ih =>
    have hitems : ∀ item ∈ items, item.Cut l := fun item hitem =>
      ih item hitem (isExactItems_iff.mp hv item hitem)
    intro depth done rest _
    cases items with
    | nil =>
      rw [writeOnto, Token.lex_of_start rfl rfl]
      exact Token.lex_of_start rfl rfl
    | cons item items =>
      rw [writeOnto, Token.lex_of_start rfl rfl, Token.lex_blanks (hl.gap (depth + 1)),
        hitems item List.mem_cons_self _ _ _ (endsNumber_writeItemsOnto hl depth items rest),
        lex_writeItemsOnto hl fun item' hitem' => hitems item' (List.mem_cons_of_mem item hitem')]
      simp [tokens]
  | obj fields ih =>
    have hfields : ∀ field ∈ fields, field.2.Cut l := fun field hfield =>
      ih field hfield (isExactFields_iff.mp hv field hfield)
    intro depth done rest _
    cases fields with
    | nil =>
      rw [writeOnto, Token.lex_of_start rfl rfl]
      exact Token.lex_of_start rfl rfl
    | cons field fields =>
      obtain ⟨key, value⟩ := field
      rw [writeOnto, Token.lex_of_start rfl rfl,
        lex_field hl (hfields (key, value) List.mem_cons_self) key _ _
          (endsNumber_writeFieldsOnto hl depth fields rest),
        lex_writeFieldsOnto hl fun field' hfield' => hfields field' (List.mem_cons_of_mem _ hfield')]
      simp [tokens]

end Cut

end Json

/-! ### Building a value from its tokens -/

namespace Reader

/-- The machine after some tokens. -/
def run (r : Reader) (ts : List Token) : Option Reader := ts.foldlM step r

theorem run_nil (r : Reader) : r.run [] = some r := rfl

theorem run_cons {r r' : Reader} {t : Token} (h : r.step t = some r') (ts : List Token) :
    r.run (t :: ts) = r'.run ts := by
  rw [run, List.foldlM_cons, h]
  rfl

/-- The first item of an array may be any value, since none starts like the end. -/
theorem step_firstItem {stack : List Frame} {t : Token} (h : t ≠ .closeBracket) :
    step ⟨stack, .firstItem⟩ t = step ⟨stack, .value⟩ t := by
  unfold step
  split
  case h_2 => exact absurd rfl h
  case h_3 => rfl
  -- every other case has another state
  all_goals simp_all

end Reader

namespace Json

theorem exists_tokens_eq_cons (v : Json) :
    ∃ t ts, v.tokens = t :: ts ∧ t ≠ .closeBracket := by
  cases v with
  | arr items => cases items <;> exact ⟨_, _, rfl, by decide⟩
  | obj fields => cases fields <;> exact ⟨_, _, rfl, by decide⟩
  | _ => exact ⟨_, _, rfl, by simp⟩

/-- The tokens of a value make the value, whatever is open around it and follows it. -/
def Assembled (v : Json) : Prop :=
  ∀ (stack : List Reader.Frame) (more : List Token),
    Reader.run ⟨stack, .value⟩ (v.tokens ++ more) = Reader.run ⟨stack, .ended v⟩ more

theorem Assembled.firstItem {v : Json} (h : v.Assembled) (stack : List Reader.Frame)
    (more : List Token) :
    Reader.run ⟨stack, .firstItem⟩ (v.tokens ++ more) = Reader.run ⟨stack, .ended v⟩ more := by
  rw [← h stack more]
  obtain ⟨t, ts, hts, ht⟩ := v.exists_tokens_eq_cons
  rw [hts, List.cons_append, Reader.run, Reader.run, List.foldlM_cons, List.foldlM_cons,
    Reader.step_firstItem ht]

/-- The further items end the array.  The items done are kept latest first. -/
theorem run_tokensOfItems {items : List Json} (h : ∀ item ∈ items, item.Assembled)
    (stack : List Reader.Frame) (done : List Json) (v : Json) (more : List Token) :
    Reader.run ⟨.items done :: stack, .ended v⟩ (tokensOfItems items ++ more) =
      Reader.run ⟨stack, .ended (.arr ((v :: done).reverse ++ items))⟩ more := by
  induction items generalizing done v with
  | nil =>
    rw [List.append_nil]
    exact Reader.run_cons rfl more
  | cons item items ih =>
    have hitem := h item List.mem_cons_self
    have hitems := ih fun item' hitem' => h item' (List.mem_cons_of_mem item hitem')
    rw [tokensOfItems, List.cons_append, List.append_assoc, Reader.run_cons rfl, hitem, hitems]
    simp

/-- Fields whose keys have been read. -/
def keyed (fields : List (String × Json)) : OpenFields := fields.map fun f => (some f.1, f.2)

theorem object_keyed (fields : List (String × Json)) :
    Reader.object (keyed fields) = .obj fields.reverse := by
  rw [Reader.object, keyed, mapM_map_eq_some]
  intro field _
  rfl

/-- The further fields end the object.  The fields done are kept latest first. -/
theorem run_tokensOfFields {fields : List (String × Json)}
    (h : ∀ field ∈ fields, field.2.Assembled) (stack : List Reader.Frame)
    (done : List (String × Json)) (key : String) (v : Json) (more : List Token) :
    Reader.run ⟨.fields (keyed done) (some key) :: stack, .ended v⟩
        (tokensOfFields fields ++ more) =
      Reader.run ⟨stack, .ended (.obj (((key, v) :: done).reverse ++ fields))⟩ more := by
  induction fields generalizing done key v with
  | nil =>
    rw [List.append_nil, ← object_keyed]
    exact Reader.run_cons rfl more
  | cons field fields ih =>
    obtain ⟨key', value⟩ := field
    have hvalue := h (key', value) List.mem_cons_self
    have hfields := ih (fun field' hfield' => h field' (List.mem_cons_of_mem _ hfield'))
      ((key, v) :: done)
    rw [tokensOfFields, List.cons_append, List.cons_append, List.cons_append, List.append_assoc,
      Reader.run_cons rfl, Reader.run_cons rfl, Reader.run_cons rfl, hvalue]
    rw [keyed, List.map_cons] at hfields
    rw [keyed, hfields]
    simp

/-- **The tokens of a value make the value.** -/
theorem assembled (v : Json) (hv : v.isExact = true) : v.Assembled := by
  induction v using inductionOn with
  | null => exact fun stack more => Reader.run_cons rfl more
  | bool b => exact fun stack more => Reader.run_cons rfl more
  | num n => exact fun stack more => Reader.run_cons rfl more
  | str s => exact fun stack more => Reader.run_cons rfl more
  | unreadable => cases hv
  | arr items ih =>
    have hitems : ∀ item ∈ items, item.Assembled := fun item hitem =>
      ih item hitem (isExactItems_iff.mp hv item hitem)
    intro stack more
    cases items with
    | nil =>
      rw [tokens, List.cons_append, Reader.run_cons rfl]
      exact Reader.run_cons rfl more
    | cons item items =>
      rw [tokens, List.cons_append, List.append_assoc, Reader.run_cons rfl,
        (hitems item List.mem_cons_self).firstItem,
        run_tokensOfItems fun item' hitem' => hitems item' (List.mem_cons_of_mem item hitem')]
      simp
  | obj fields ih =>
    have hfields : ∀ field ∈ fields, field.2.Assembled := fun field hfield =>
      ih field hfield (isExactFields_iff.mp hv field hfield)
    intro stack more
    cases fields with
    | nil =>
      rw [tokens, List.cons_append, Reader.run_cons rfl]
      exact Reader.run_cons rfl more
    | cons field fields =>
      obtain ⟨key, value⟩ := field
      have hvalue := hfields (key, value) List.mem_cons_self
      have hothers : ∀ field' ∈ fields, field'.2.Assembled := fun field' hfield' =>
        hfields field' (List.mem_cons_of_mem _ hfield')
      rw [tokens, List.cons_append, List.cons_append, List.cons_append, List.append_assoc,
        Reader.run_cons rfl, Reader.run_cons rfl, Reader.run_cons rfl, hvalue]
      exact run_tokensOfFields hothers stack [] key value more

/-! ### Reading what was written -/

/-- **A value is read back from its text, in any layout.** -/
theorem read?_write {l : Layout} (hl : l.IsBlank) {v : Json} (hv : v.isExact = true) :
    read? (v.write l) = some v := by
  have hend : Token.next [] = .finished := rfl
  have hlex := cut hl v hv 0 [] [] rfl
  rw [Token.lex_of_finished hend, List.append_nil, List.reverse_reverse] at hlex
  have hrun := v.assembled hv [] []
  rw [List.append_nil, Reader.run_nil, Reader.run] at hrun
  unfold read?
  rw [write, String.toList_ofList, hlex]
  simp only [Option.bind_eq_bind, Option.bind_some, Reader.start, hrun]
  rfl

end Json

end StreamPlan
