import Recertia.Lib.Json

/-! The text of `json.dumps` is unambiguous: a value's text ends where a scan over strings and
brackets says so, and a string can be read back from its quoted form. -/
namespace Json

/-- The character that a two-character escape stands for. -/
def shortEscape (c : Char) : Char :=
  if c = 'n' then '\n' else if c = 'r' then '\r' else if c = 't' then '\t'
  else if c = 'b' then Char.ofNat 8 else if c = 'f' then Char.ofNat 12 else c

theorem escapeChar_cases (c : Char) :
    ((escapeChar c).toList = [c] ∧ c ≠ '"' ∧ c ≠ '\\') ∨
    (∃ x, x ≠ 'u' ∧ (escapeChar c).toList = ['\\', x] ∧ shortEscape x = c) ∨
    (c.toNat < 65536 ∧ escapeChar c = unicodeEscape c.toNat) ∨
    (65536 ≤ c.toNat ∧ escapeChar c = unicodeEscape (55296 + (c.toNat - 65536) / 1024) ++
      unicodeEscape (56320 + (c.toNat - 65536) % 1024)) := by
  by_cases hquote : c = '"'
  · exact Or.inr (Or.inl ⟨'"', by decide, by rw [escapeChar, if_pos hquote]; rfl, hquote.symm⟩)
  by_cases hslash : c = '\\'
  · exact Or.inr (Or.inl ⟨'\\', by decide,
      by rw [escapeChar, if_neg hquote, if_pos hslash]; rfl, hslash.symm⟩)
  by_cases hn : c = '\n'
  · exact Or.inr (Or.inl ⟨'n', by decide, by rw [hn]; rfl, hn.symm⟩)
  by_cases hr : c = '\r'
  · exact Or.inr (Or.inl ⟨'r', by decide, by rw [hr]; rfl, hr.symm⟩)
  by_cases ht : c = '\t'
  · exact Or.inr (Or.inl ⟨'t', by decide, by rw [ht]; rfl, ht.symm⟩)
  -- None of the named characters: the rest goes by the code point.
  have hrest : escapeChar c = if c.toNat = 8 then "\\b" else if c.toNat = 12 then "\\f"
      else if 32 ≤ c.toNat ∧ c.toNat ≤ 126 then String.singleton c
      else if c.toNat < 65536 then unicodeEscape c.toNat
      else unicodeEscape (55296 + (c.toNat - 65536) / 1024) ++
        unicodeEscape (56320 + (c.toNat - 65536) % 1024) := by
    rw [escapeChar, if_neg hquote, if_neg hslash, if_neg hn, if_neg hr, if_neg ht]
  by_cases hb : c.toNat = 8
  · have hc : Char.ofNat 8 = c := by rw [← hb, Char.ofNat_toNat]
    exact Or.inr (Or.inl ⟨'b', by decide, by rw [hrest, if_pos hb]; rfl, hc⟩)
  by_cases hf : c.toNat = 12
  · have hc : Char.ofNat 12 = c := by rw [← hf, Char.ofNat_toNat]
    exact Or.inr (Or.inl ⟨'f', by decide, by rw [hrest, if_neg hb, if_pos hf]; rfl, hc⟩)
  rw [if_neg hb, if_neg hf] at hrest
  by_cases hprint : 32 ≤ c.toNat ∧ c.toNat ≤ 126
  · rw [if_pos hprint] at hrest
    exact Or.inl ⟨by rw [hrest]; exact String.toList_singleton c, hquote, hslash⟩
  rw [if_neg hprint] at hrest
  by_cases hplane : c.toNat < 65536
  · rw [if_pos hplane] at hrest
    exact Or.inr (Or.inr (Or.inl ⟨hplane, hrest⟩))
  · rw [if_neg hplane] at hrest
    exact Or.inr (Or.inr (Or.inr ⟨Nat.le_of_not_lt hplane, hrest⟩))

theorem unicodeEscape_toList (n : ℕ) :
    (unicodeEscape n).toList = ['\\', 'u', hexDigit (n / 4096 % 16), hexDigit (n / 256 % 16),
      hexDigit (n / 16 % 16), hexDigit (n % 16)] := String.toList_ofList

theorem hexDigit_toNat {n : ℕ} (h : n < 16) :
    (hexDigit n).toNat = if n < 10 then 48 + n else 87 + n := by
  have hall : ∀ n : Fin 16, (hexDigit n).toNat = if n.val < 10 then 48 + n.val else 87 + n.val := by
    decide
  exact hall ⟨n, h⟩

theorem hexDigit_inj {m n : ℕ} (hm : m < 16) (hn : n < 16) (h : hexDigit m = hexDigit n) :
    m = n := by
  have hnat := congrArg Char.toNat h
  rw [hexDigit_toNat hm, hexDigit_toNat hn] at hnat
  split at hnat <;> split at hnat <;> omega

theorem unicodeEscape_append_inj {m n : ℕ} {s t : List Char} (hm : m < 65536) (hn : n < 65536)
    (h : (unicodeEscape m).toList ++ s = (unicodeEscape n).toList ++ t) : m = n ∧ s = t := by
  simp only [unicodeEscape_toList, List.cons_append, List.nil_append, List.cons.injEq,
    true_and] at h
  obtain ⟨h3, h2, h1, h0, hst⟩ := h
  have e3 := hexDigit_inj (Nat.mod_lt _ (by decide)) (Nat.mod_lt _ (by decide)) h3
  have e2 := hexDigit_inj (Nat.mod_lt _ (by decide)) (Nat.mod_lt _ (by decide)) h2
  have e1 := hexDigit_inj (Nat.mod_lt _ (by decide)) (Nat.mod_lt _ (by decide)) h1
  have e0 := hexDigit_inj (Nat.mod_lt _ (by decide)) (Nat.mod_lt _ (by decide)) h0
  exact ⟨by omega, hst⟩

theorem toNat_not_surrogate (c : Char) :
    c.toNat < 55296 ∨ (57343 < c.toNat ∧ c.toNat < 1114112) := c.valid

/-- How a text goes on: with a plain character, a two-character escape or a code unit. -/
def escapeKind : List Char → ℕ
  | '\\' :: 'u' :: _ => 2
  | '\\' :: _ => 1
  | _ => 0

theorem escapeKind_plain {c : Char} (h : c ≠ '\\') (s : List Char) : escapeKind (c :: s) = 0 := by
  rw [escapeKind]
  · exact fun _ heq => h (List.cons.inj heq).1
  · exact fun _ heq => h (List.cons.inj heq).1

theorem escapeKind_short {x : Char} (h : x ≠ 'u') (s : List Char) :
    escapeKind ('\\' :: x :: s) = 1 := by
  rw [escapeKind]
  exact fun _ heq => h (List.cons.inj heq).1

theorem escapeKind_unicode (n : ℕ) (s : List Char) :
    escapeKind ((unicodeEscape n).toList ++ s) = 2 := by
  rw [unicodeEscape_toList]
  rfl

/-- The escapes of two characters are the same, or neither begins the other. -/
theorem escapeChar_append_inj {c d : Char} {s t : List Char}
    (h : (escapeChar c).toList ++ s = (escapeChar d).toList ++ t) : c = d ∧ s = t := by
  have hc := toNat_not_surrogate c
  have hd := toNat_not_surrogate d
  have hkind := congrArg escapeKind h
  rcases escapeChar_cases c with ⟨ec, -, hcs⟩ | ⟨x, hx, ec, hxc⟩ | ⟨hlc, ec⟩ | ⟨hlc, ec⟩
  · rw [ec, List.singleton_append] at h hkind
    rw [escapeKind_plain hcs] at hkind
    rcases escapeChar_cases d with ⟨ed, -, hds⟩ | ⟨y, hy, ed, hyd⟩ | ⟨hld, ed⟩ | ⟨hld, ed⟩
    · rw [ed] at h
      exact List.cons.inj h
    · rw [ed] at hkind
      exact absurd (hkind.trans (escapeKind_short hy t)) (by decide)
    · rw [ed, escapeKind_unicode] at hkind
      cases hkind
    · rw [ed, String.toList_append, List.append_assoc, escapeKind_unicode] at hkind
      cases hkind
  · rw [ec] at h hkind
    replace hkind := (escapeKind_short hx s).symm.trans hkind
    rcases escapeChar_cases d with ⟨ed, -, hds⟩ | ⟨y, hy, ed, hyd⟩ | ⟨hld, ed⟩ | ⟨hld, ed⟩
    · rw [ed, List.singleton_append, escapeKind_plain hds] at hkind
      cases hkind
    · rw [ed] at h
      obtain ⟨rfl, hst⟩ := List.cons.inj (List.cons.inj h).2
      exact ⟨hxc.symm.trans hyd, hst⟩
    · rw [ed, escapeKind_unicode] at hkind
      cases hkind
    · rw [ed, String.toList_append, List.append_assoc, escapeKind_unicode] at hkind
      cases hkind
  · rw [ec, escapeKind_unicode] at hkind
    rcases escapeChar_cases d with ⟨ed, -, hds⟩ | ⟨y, hy, ed, hyd⟩ | ⟨hld, ed⟩ | ⟨hld, ed⟩
    · rw [ed, List.singleton_append, escapeKind_plain hds] at hkind
      cases hkind
    · rw [ed] at hkind
      exact absurd (hkind.trans (escapeKind_short hy t)) (by decide)
    · rw [ec, ed] at h
      obtain ⟨hnat, hst⟩ := unicodeEscape_append_inj hlc hld h
      exact ⟨Char.toNat_inj.mp hnat, hst⟩
    · -- The first unit of an astral character is a surrogate, which no character is.
      rw [ec, ed, String.toList_append, List.append_assoc] at h
      have hhigh := (unicodeEscape_append_inj hlc (by omega) h).1
      omega
  · rw [ec, String.toList_append, List.append_assoc] at h hkind
    rw [escapeKind_unicode] at hkind
    rcases escapeChar_cases d with ⟨ed, -, hds⟩ | ⟨y, hy, ed, hyd⟩ | ⟨hld, ed⟩ | ⟨hld, ed⟩
    · rw [ed, List.singleton_append, escapeKind_plain hds] at hkind
      cases hkind
    · rw [ed] at hkind
      exact absurd (hkind.trans (escapeKind_short hy t)) (by decide)
    · rw [ed] at h
      have hhigh := (unicodeEscape_append_inj (by omega) hld h).1
      omega
    · rw [ed, String.toList_append, List.append_assoc] at h
      obtain ⟨hhigh, hrest⟩ := unicodeEscape_append_inj (by omega) (by omega) h
      obtain ⟨hlow, hst⟩ := unicodeEscape_append_inj (by omega) (by omega) hrest
      exact ⟨Char.toNat_inj.mp (by omega), hst⟩

theorem escapeChar_head (c : Char) : ∃ x xs, (escapeChar c).toList = x :: xs ∧ x ≠ '"' := by
  rcases escapeChar_cases c with ⟨h, hq, _⟩ | ⟨x, _, h, _⟩ | ⟨_, h⟩ | ⟨_, h⟩
  · exact ⟨c, [], h, hq⟩
  · exact ⟨'\\', [x], h, by decide⟩
  · exact ⟨'\\', _, by rw [h, unicodeEscape_toList], by decide⟩
  · rw [h, String.toList_append, unicodeEscape_toList]
    exact ⟨'\\', _, rfl, by decide⟩

theorem quote_toList (s : String) :
    (quote s).toList = '"' :: (s.toList.flatMap (fun c => (escapeChar c).toList) ++ ['"']) := by
  simp only [quote, String.toList_append, String.toList_join, List.flatMap_map]
  rfl

/-- A quoted string is read back, whatever follows it. -/
theorem quote_append_inj {a b : String} {s t : List Char}
    (h : (quote a).toList ++ s = (quote b).toList ++ t) : a = b ∧ s = t := by
  have hbody : ∀ (cs ds : List Char),
      cs.flatMap (fun c => (escapeChar c).toList) ++ '"' :: s =
        ds.flatMap (fun c => (escapeChar c).toList) ++ '"' :: t → cs = ds ∧ s = t := by
    intro cs
    induction cs with
    | nil =>
      intro ds hds
      cases ds with
      | nil => exact ⟨rfl, (List.cons.inj hds).2⟩
      | cons d ds =>
        obtain ⟨x, xs, hx, hne⟩ := escapeChar_head d
        rw [List.flatMap_cons, hx] at hds
        exact absurd (List.cons.inj hds).1.symm hne
    | cons c cs ih =>
      intro ds hds
      cases ds with
      | nil =>
        obtain ⟨x, xs, hx, hne⟩ := escapeChar_head c
        rw [List.flatMap_cons, hx] at hds
        exact absurd (List.cons.inj hds).1 hne
      | cons d ds =>
        rw [List.flatMap_cons, List.flatMap_cons, List.append_assoc, List.append_assoc] at hds
        obtain ⟨rfl, hrest⟩ := escapeChar_append_inj hds
        obtain ⟨rfl, hst⟩ := ih ds hrest
        exact ⟨rfl, hst⟩
  rw [quote_toList, quote_toList, List.cons_append, List.cons_append] at h
  have htail := (List.cons.inj h).2
  rw [List.append_assoc, List.append_assoc] at htail
  obtain ⟨hab, hst⟩ := hbody a.toList b.toList htail
  exact ⟨String.toList_inj.mp hab, hst⟩

theorem quote_inj {a b : String} (h : quote a = quote b) : a = b :=
  (quote_append_inj (s := []) (t := []) (by rw [h])).1

inductive Mode
  | plain
  | text
  | escaped

def isOpen (c : Char) : Bool := c == '[' || c == '\x7b'

def isClose (c : Char) : Bool := c == ']' || c == '\x7d'

/-- What is left at the first comma or closing bracket outside of all strings and brackets. -/
def scan : ℕ → Mode → List Char → List Char
  | _, _, [] => []
  | depth, .escaped, _ :: cs => scan depth .text cs
  | depth, .text, c :: cs =>
    if c = '"' then scan depth .plain cs
    else if c = '\\' then scan depth .escaped cs
    else scan depth .text cs
  | depth, .plain, c :: cs =>
    if c = '"' then scan depth .text cs
    else if isOpen c then scan (depth + 1) .plain cs
    else if depth = 0 ∧ (c = ',' ∨ isClose c) then c :: cs
    else if isClose c then scan (depth - 1) .plain cs
    else scan depth .plain cs

/-- A scan passes over the text as if it were not there. -/
def Balanced (text : List Char) : Prop :=
  ∀ depth s, scan depth .plain (text ++ s) = scan depth .plain s

/-- The same inside of a bracket. -/
def Inner (text : List Char) : Prop :=
  ∀ depth s, scan (depth + 1) .plain (text ++ s) = scan (depth + 1) .plain s

theorem Balanced.inner {text : List Char} (h : Balanced text) : Inner text :=
  fun depth s => h (depth + 1) s

theorem Balanced.append {a b : List Char} (ha : Balanced a) (hb : Balanced b) :
    Balanced (a ++ b) := fun depth s => by rw [List.append_assoc, ha, hb]

theorem Inner.append {a b : List Char} (ha : Inner a) (hb : Inner b) : Inner (a ++ b) :=
  fun depth s => by rw [List.append_assoc, ha, hb]

def isPlain (c : Char) : Bool := c != '"' && !isOpen c && !isClose c && c != ','

theorem balanced_of_plain {text : List Char} (h : text.all isPlain = true) : Balanced text := by
  intro depth s
  induction text with
  | nil => rfl
  | cons c cs ih =>
    rw [List.all_cons, Bool.and_eq_true] at h
    obtain ⟨hc, hcs⟩ := h
    simp only [isPlain, Bool.and_eq_true, bne_iff_ne, Bool.not_eq_true'] at hc
    obtain ⟨⟨⟨hq, ho⟩, hcl⟩, hcomma⟩ := hc
    rw [List.cons_append, scan, if_neg hq, ho, hcl]
    simp only [hcomma, Bool.false_eq_true, or_false, and_false, if_false]
    exact ih hcs

theorem scan_escape (c : Char) (depth : ℕ) (s : List Char) :
    scan depth .text ((escapeChar c).toList ++ s) = scan depth .text s := by
  have hhex : ∀ n, n < 16 → hexDigit n ≠ '"' ∧ hexDigit n ≠ '\\' := by
    decide
  have hunicode : ∀ n s, scan depth .text ((unicodeEscape n).toList ++ s) = scan depth .text s := by
    intro n s
    have h3 := hhex (n / 4096 % 16) (Nat.mod_lt _ (by decide))
    have h2 := hhex (n / 256 % 16) (Nat.mod_lt _ (by decide))
    have h1 := hhex (n / 16 % 16) (Nat.mod_lt _ (by decide))
    have h0 := hhex (n % 16) (Nat.mod_lt _ (by decide))
    simp only [unicodeEscape_toList, List.cons_append, List.nil_append]
    rw [scan, if_neg (by decide), if_pos rfl, scan]
    simp only [scan, h3, h2, h1, h0, if_false]
  rcases escapeChar_cases c with ⟨h, hq, hs⟩ | ⟨x, _, h, _⟩ | ⟨_, h⟩ | ⟨_, h⟩
  · rw [h, List.singleton_append, scan, if_neg hq, if_neg hs]
  · rw [h, List.cons_append, List.singleton_append, scan, if_neg (by decide), if_pos rfl, scan]
  · rw [h, hunicode]
  · rw [h, String.toList_append, List.append_assoc, hunicode, hunicode]

theorem balanced_quote (s : String) : Balanced (quote s).toList := by
  intro depth t
  have hbody : ∀ cs : List Char, scan depth .text
      (cs.flatMap (fun c => (escapeChar c).toList) ++ '"' :: t) = scan depth .plain t := by
    intro cs
    induction cs with
    | nil => rw [List.flatMap_nil, List.nil_append, scan, if_pos rfl]
    | cons c cs ih => rw [List.flatMap_cons, List.append_assoc, scan_escape, ih]
  rw [quote_toList, List.cons_append, scan, if_pos rfl, List.append_assoc]
  exact hbody s.toList

theorem inner_comma : Inner [','] := by
  intro depth s
  rw [List.singleton_append, scan]
  simp [isOpen, isClose]

theorem balanced_bracket {o c : Char} {text : List Char} (ho : isOpen o = true)
    (hc : isClose c = true) (h : Inner text) : Balanced (o :: (text ++ [c])) := by
  have hoq : o ≠ '"' := by
    rintro rfl
    exact absurd ho (by decide)
  have hcq : c ≠ '"' := by
    rintro rfl
    exact absurd hc (by decide)
  have hco : isOpen c = false := by
    simp only [isClose, Bool.or_eq_true, beq_iff_eq] at hc
    rcases hc with rfl | rfl <;> decide
  intro depth s
  rw [List.cons_append, scan, if_neg hoq, if_pos ho, List.append_assoc, h, List.singleton_append,
    scan, if_neg hcq, hco]
  simp [hc]

theorem inner_intercalate {ts : List (List Char)} (h : ∀ t ∈ ts, Balanced t) :
    Inner ([','].intercalate ts) := by
  induction ts with
  | nil => exact fun _ _ => rfl
  | cons t ts ih =>
    have ht := (h t List.mem_cons_self).inner
    have hts := ih fun u hu => h u (List.mem_cons_of_mem _ hu)
    cases ts with
    | nil => simpa using ht
    | cons u us =>
      rw [List.intercalate_cons_cons]
      exact (ht.append inner_comma).append hts

/-- What can follow a value inside of a list or a dictionary, or at the end. -/
def Delimited (s : List Char) : Prop :=
  s = [] ∨ ∃ c cs, s = c :: cs ∧ (c = ',' ∨ isClose c = true)

theorem scan_delimited {s : List Char} (h : Delimited s) : scan 0 .plain s = s := by
  rcases h with rfl | ⟨c, cs, rfl, hc⟩
  · rfl
  · have hq : c ≠ '"' := by
      rintro rfl
      exact absurd hc (by decide)
    have ho : isOpen c = false := by
      rcases hc with rfl | hc
      · decide
      · simp only [isClose, Bool.or_eq_true, beq_iff_eq] at hc
        rcases hc with rfl | rfl <;> decide
    rw [scan, if_neg hq, ho, if_neg Bool.false_ne_true, if_pos ⟨rfl, hc⟩]

/-- Of two balanced texts before a delimiter neither begins the other. -/
theorem Balanced.append_inj {a b s t : List Char} (ha : Balanced a) (hb : Balanced b)
    (hs : Delimited s) (ht : Delimited t) (h : a ++ s = b ++ t) : a = b ∧ s = t := by
  have hst : s = t := by
    have hscan := congrArg (scan 0 .plain) h
    rwa [ha, hb, scan_delimited hs, scan_delimited ht] at hscan
  subst hst
  exact ⟨List.append_cancel_right h, rfl⟩

theorem isPlain_of_isDigit {c : Char} (h : c.isDigit = true) : isPlain c = true := by
  have hne : ∀ x : Char, x.isDigit = false → c ≠ x := by
    rintro x hx rfl
    rw [h] at hx
    cases hx
  have hb : ∀ x : Char, x.isDigit = false → (c == x) = false := fun x hx =>
    beq_eq_false_iff_ne.mpr (hne x hx)
  simp only [isPlain, isOpen, isClose, bne, hb '"' (by decide), hb '[' (by decide),
    hb '\x7b' (by decide), hb ']' (by decide), hb '\x7d' (by decide), hb ',' (by decide)]
  decide

theorem balanced_int (i : Int) : Balanced (toString i).toList := by
  apply balanced_of_plain
  rw [List.all_eq_true]
  have hdigit : ∀ n c, c ∈ (Nat.repr n).toList → isPlain c = true := by
    intro n c hc
    rw [Nat.toList_repr] at hc
    exact isPlain_of_isDigit (Nat.isDigit_of_mem_toDigits (by decide) (by decide) hc)
  intro c hc
  cases i with
  | ofNat n => exact hdigit n c hc
  | negSucc n =>
    have hneg : (toString (Int.negSucc n)).toList = '-' :: (Nat.repr (n + 1)).toList :=
      String.toList_append
    rw [hneg] at hc
    rcases List.mem_cons.mp hc with rfl | hc
    · decide
    · exact hdigit _ c hc

theorem balanced_float (f : PyFloat) : Balanced f.dumps.toList := by
  cases f with
  | finite r =>
    apply balanced_of_plain
    rw [List.all_eq_true]
    intro c hc
    have hchar := List.all_eq_true.mp r.chars c hc
    simp only [isFloatChar, Bool.or_eq_true, beq_iff_eq] at hchar
    rcases hchar with (((hdigit | rfl) | rfl) | rfl) | rfl
    · exact isPlain_of_isDigit hdigit
    all_goals decide
  | nan => exact balanced_of_plain (by decide)
  | infinity => exact balanced_of_plain (by decide)
  | negInfinity => exact balanced_of_plain (by decide)

/-- The members of a dictionary's text, in the order of their keys. -/
def sortedItems (items : Dict) : List (String × String) :=
  (dumpsDict items).mergeSort fun a b => a.1 ≤ b.1

def memberText (item : String × String) : List Char :=
  (quote item.1).toList ++ ':' :: item.2.toList

theorem dumps_dict_toList (items : Dict) :
    (Value.dict items).dumps.toList =
      '\x7b' :: ([','].intercalate ((sortedItems items).map memberText) ++ ['\x7d']) := by
  have hmember : ∀ item : String × String,
      (quote item.1 ++ ":" ++ item.2).toList = memberText item := by
    intro item
    rw [String.toList_append, String.toList_append, List.append_assoc]
    rfl
  simp only [Value.dumps, String.toList_append, String.toList_intercalate, List.map_map]
  have hmap : (sortedItems items).map (String.toList ∘ fun item => quote item.1 ++ ":" ++ item.2) =
      (sortedItems items).map memberText :=
    List.map_congr_left fun item _ => hmember item
  exact congrArg (fun ts => '\x7b' :: ([','].intercalate ts ++ ['\x7d'])) hmap

theorem dumps_list_toList (vs : List Value) :
    (Value.list vs).dumps.toList =
      '[' :: ([','].intercalate ((dumpsList vs).map String.toList) ++ [']']) := by
  simp only [Value.dumps, String.toList_append, String.toList_intercalate]
  rfl

theorem balanced_member {item : String × String} (h : Balanced item.2.toList) :
    Balanced (memberText item) := by
  have hcolon : Balanced [':'] := balanced_of_plain (by decide)
  exact (balanced_quote item.1).append (hcolon.append h)

theorem balanced_dict {items : Dict} (h : ∀ item ∈ dumpsDict items, Balanced item.2.toList) :
    Balanced (Value.dict items).dumps.toList := by
  rw [dumps_dict_toList]
  refine balanced_bracket (by decide) (by decide) (inner_intercalate fun t ht => ?_)
  obtain ⟨item, hitem, rfl⟩ := List.mem_map.mp ht
  exact balanced_member (h item ((List.mergeSort_perm _ _).mem_iff.mp hitem))

mutual

theorem Value.balanced_dumps (v : Value) : Balanced v.jsonMode.dumps.toList := by
  match v with
  | .null => exact balanced_of_plain (by decide)
  | .bool true => exact balanced_of_plain (by decide)
  | .bool false => exact balanced_of_plain (by decide)
  | .int i => simpa only [Value.jsonMode, Value.dumps] using balanced_int i
  | .float (.finite r) => simpa only [Value.jsonMode, Value.dumps] using balanced_float (.finite r)
  | .float .nan | .float .infinity | .float .negInfinity => exact balanced_of_plain (by decide)
  | .str s => simpa only [Value.jsonMode, Value.dumps] using balanced_quote s
  | .list vs =>
    simp only [Value.jsonMode, dumps_list_toList]
    refine balanced_bracket (by decide) (by decide) (inner_intercalate fun t ht => ?_)
    obtain ⟨text, htext, rfl⟩ := List.mem_map.mp ht
    exact balanced_dumpsList vs text htext
  | .dict items =>
    simp only [Value.jsonMode]
    exact balanced_dict (balanced_dumpsDict items)
  | .object (some v) =>
    simp only [Value.jsonMode]
    exact v.balanced_dumps
  | .object none => exact balanced_of_plain (by decide)

theorem balanced_dumpsList (vs : List Value) :
    ∀ text ∈ dumpsList (jsonModeList vs), Balanced text.toList := by
  match vs with
  | [] =>
    intro text h
    simp only [jsonModeList, dumpsList] at h
    cases h
  | v :: vs =>
    intro text h
    simp only [jsonModeList, dumpsList] at h
    rcases List.mem_cons.mp h with rfl | h
    · exact v.balanced_dumps
    · exact balanced_dumpsList vs text h

theorem balanced_dumpsDict (items : Dict) :
    ∀ item ∈ dumpsDict (jsonModeDict items), Balanced item.2.toList := by
  match items with
  | [] =>
    intro item h
    simp only [jsonModeDict, dumpsDict] at h
    cases h
  | (k, v) :: items =>
    intro item h
    simp only [jsonModeDict, dumpsDict] at h
    rcases List.mem_cons.mp h with rfl | h
    · exact v.balanced_dumps
    · exact balanced_dumpsDict items item h

end

theorem balanced_of_isJson {items : Dict} (h : isJsonDict items = true) :
    ∀ item ∈ dumpsDict items, Balanced item.2.toList := by
  have hbalanced := balanced_dumpsDict items
  rwa [jsonModeDict_of_isJson h] at hbalanced

theorem mem_dumpsDict {items : Dict} {key text : String} :
    (key, text) ∈ dumpsDict items ↔ ∃ v, (key, v) ∈ items ∧ v.dumps = text := by
  induction items with
  | nil => simp [dumpsDict]
  | cons item items ih =>
    obtain ⟨k, v⟩ := item
    rw [dumpsDict, List.mem_cons, ih]
    constructor
    · rintro (heq | ⟨w, hw, htext⟩)
      · obtain ⟨rfl, rfl⟩ := Prod.mk.inj heq
        exact ⟨v, List.mem_cons_self, rfl⟩
      · exact ⟨w, List.mem_cons_of_mem _ hw, htext⟩
    · rintro ⟨w, hw, htext⟩
      rcases List.mem_cons.mp hw with heq | hw
      · obtain ⟨rfl, rfl⟩ := Prod.mk.inj heq
        exact Or.inl (by rw [htext])
      · exact Or.inr ⟨w, hw, htext⟩

theorem memberText_head (item : String × String) : ∃ cs, memberText item = '"' :: cs := by
  unfold memberText
  rw [quote_toList]
  exact ⟨_, rfl⟩

theorem memberText_inj {a b : String × String} (h : memberText a = memberText b) : a = b := by
  obtain ⟨hkey, htext⟩ := quote_append_inj h
  exact Prod.ext hkey (String.toList_inj.mp (List.cons.inj htext).2)

/-- What follows the first member of a dictionary whose text ends in `close`. -/
def furtherText (close : List Char) : List (String × String) → List Char
  | [] => close
  | item :: items => ',' :: (memberText item ++ furtherText close items)

theorem intercalate_members (item : String × String) (items : List (String × String))
    (close : List Char) : [','].intercalate ((item :: items).map memberText) ++ close =
      memberText item ++ furtherText close items := by
  induction items generalizing item with
  | nil => simp [furtherText]
  | cons next items ih =>
    rw [List.map_cons, List.map_cons, List.intercalate_cons_cons, List.append_assoc,
      List.append_assoc, ← List.map_cons, ih]
    rfl

theorem delimited_further {c : Char} {cs : List Char} (hc : isClose c = true)
    (items : List (String × String)) : Delimited (furtherText (c :: cs) items) := by
  cases items with
  | nil => exact Or.inr ⟨c, cs, rfl, Or.inr hc⟩
  | cons item items => exact Or.inr ⟨_, _, rfl, Or.inl rfl⟩

theorem furtherText_inj {c d : Char} {s t : List Char} (hc : isClose c = true)
    (hd : isClose d = true) {as bs : List (String × String)}
    (has : ∀ item ∈ as, Balanced item.2.toList) (hbs : ∀ item ∈ bs, Balanced item.2.toList)
    (h : furtherText (c :: s) as = furtherText (d :: t) bs) : as = bs := by
  induction as generalizing bs with
  | nil =>
    cases bs with
    | nil => rfl
    | cons b bs =>
      rw [(List.cons.inj h).1] at hc
      exact absurd hc (by decide)
  | cons a as ih =>
    cases bs with
    | nil =>
      rw [← (List.cons.inj h).1] at hd
      exact absurd hd (by decide)
    | cons b bs =>
      obtain ⟨hab, hrest⟩ := (balanced_member (has a List.mem_cons_self)).append_inj
        (balanced_member (hbs b List.mem_cons_self)) (delimited_further hc as)
        (delimited_further hd bs) (List.cons.inj h).2
      have htail := ih (fun item hi => has item (List.mem_cons_of_mem _ hi))
        (fun item hi => hbs item (List.mem_cons_of_mem _ hi)) hrest
      rw [memberText_inj hab, htail]

/-- The members of a dictionary are read back from its text. -/
theorem members_inj {as bs : List (String × String)} {close : Char} (hclose : isClose close = true)
    (has : ∀ item ∈ as, Balanced item.2.toList) (hbs : ∀ item ∈ bs, Balanced item.2.toList)
    (h : [','].intercalate (as.map memberText) ++ [close] =
      [','].intercalate (bs.map memberText) ++ [close]) : as = bs := by
  have hstart : ∀ item rest, [close] ≠ memberText item ++ rest := by
    intro item rest heq
    obtain ⟨cs, hcs⟩ := memberText_head item
    rw [hcs] at heq
    rw [(List.cons.inj heq).1] at hclose
    exact absurd hclose (by decide)
  cases as with
  | nil =>
    cases bs with
    | nil => rfl
    | cons b bs =>
      rw [intercalate_members] at h
      exact absurd h (hstart b _)
  | cons a as =>
    cases bs with
    | nil =>
      rw [intercalate_members] at h
      exact absurd h.symm (hstart a _)
    | cons b bs =>
      rw [intercalate_members, intercalate_members] at h
      obtain ⟨hab, hrest⟩ := (balanced_member (has a List.mem_cons_self)).append_inj
        (balanced_member (hbs b List.mem_cons_self)) (delimited_further hclose as)
        (delimited_further hclose bs) h
      have htail := furtherText_inj hclose hclose
        (fun item hi => has item (List.mem_cons_of_mem _ hi))
        (fun item hi => hbs item (List.mem_cons_of_mem _ hi)) hrest
      rw [memberText_inj hab, htail]

/-- Two dictionaries with one text have the same members, up to their order. -/
theorem dumps_dict_inj {items items' : Dict}
    (hb : ∀ item ∈ dumpsDict items, Balanced item.2.toList)
    (hb' : ∀ item ∈ dumpsDict items', Balanced item.2.toList)
    (h : (Value.dict items).dumps = (Value.dict items').dumps) :
    (dumpsDict items).Perm (dumpsDict items') := by
  have hperm : (sortedItems items).Perm (dumpsDict items) := List.mergeSort_perm _ _
  have hperm' : (sortedItems items').Perm (dumpsDict items') := List.mergeSort_perm _ _
  have htext := congrArg String.toList h
  rw [dumps_dict_toList, dumps_dict_toList] at htext
  have hsorted : sortedItems items = sortedItems items' :=
    members_inj (by decide) (fun item hi => hb item (hperm.mem_iff.mp hi))
      (fun item hi => hb' item (hperm'.mem_iff.mp hi)) (List.cons.inj htext).2
  exact hperm.symm.trans (hsorted ▸ hperm')

/-- Of the orders of a list one at most has its keys in a given order. -/
theorem eq_of_perm_of_keys {K V : Type*} {as bs : List (K × V)} (hperm : as.Perm bs)
    (hkeys : as.map Prod.fst = bs.map Prod.fst) (hnodup : (as.map Prod.fst).Nodup) : as = bs := by
  induction as generalizing bs with
  | nil => exact hperm.nil_eq
  | cons a as ih =>
    cases bs with
    | nil => cases hkeys
    | cons b bs =>
      obtain ⟨hab, hrest⟩ := List.cons.inj hkeys
      obtain ⟨hfresh, hnodup'⟩ := List.nodup_cons.mp hnodup
      have heq : a = b := by
        rcases List.mem_cons.mp (hperm.mem_iff.mp List.mem_cons_self) with heq | hmem
        · exact heq
        · rw [show as.map Prod.fst = bs.map Prod.fst from hrest] at hfresh
          exact absurd (List.mem_map.mpr ⟨a, hmem, rfl⟩) hfresh
      subst heq
      rw [ih (List.perm_cons a |>.mp hperm) hrest hnodup']

theorem natRepr_inj {m n : ℕ} (h : Nat.repr m = Nat.repr n) : m = n := by
  have hdigits : ∀ m n, Nat.toDigits 10 m = Nat.toDigits 10 n → m = n := by
    intro m
    induction m using Nat.strongRecOn with
    | ind m ih =>
      intro n hmn
      have hlast : ∀ a b, a < 10 → b < 10 → Nat.digitChar a = Nat.digitChar b → a = b := by
        intro a b ha hb hab
        have hnat := congrArg Char.toNat hab
        rw [Nat.toNat_digitChar_of_lt_ten ha, Nat.toNat_digitChar_of_lt_ten hb] at hnat
        omega
      have hpos : ∀ k, Nat.toDigits 10 k ≠ [] := fun _ => Nat.toDigits_ne_nil
      rw [Nat.toDigits_eq_if (by decide), Nat.toDigits_eq_if (n := n) (by decide)] at hmn
      split at hmn <;> split at hmn
      · exact hlast m n (by omega) (by omega) (List.cons.inj hmn).1
      · have hlen := congrArg List.length hmn
        have := List.length_pos_iff.mpr (hpos (n / 10))
        simp only [List.length_append, List.length_singleton] at hlen
        omega
      · have hlen := congrArg List.length hmn
        have := List.length_pos_iff.mpr (hpos (m / 10))
        simp only [List.length_append, List.length_singleton] at hlen
        omega
      · obtain ⟨hinit, hdigit⟩ := List.append_inj' hmn rfl
        have hdiv := ih (m / 10) (by omega) (n / 10) hinit
        have hmod := hlast _ _ (Nat.mod_lt _ (by decide)) (Nat.mod_lt _ (by decide))
          (List.cons.inj hdigit).1
        omega
  apply hdigits
  rw [← Nat.toList_repr, ← Nat.toList_repr, h]

/-- No number is written as `null` is. -/
theorem dumps_int_ne_null (n : ℕ) : (Value.int n).dumps ≠ Value.null.dumps := by
  intro h
  simp only [Value.dumps] at h
  have htext : Nat.repr n = "null" := h
  have hdigit : 'n' ∈ Nat.toDigits 10 n := by
    rw [← Nat.toList_repr, htext]
    decide
  exact absurd (Nat.isDigit_of_mem_toDigits (by decide) (by decide) hdigit) (by decide)

theorem utf8_inj {a b : String} (h : a.toUTF8.data.toList = b.toUTF8.data.toList) : a = b := by
  rw [String.toUTF8_eq_toByteArray, String.toUTF8_eq_toByteArray] at h
  exact String.toByteArray_inj.mp (ByteArray.ext (Array.toList_inj.mp h))

def pairsValue (pairs : List (String × String)) : Value :=
  .list (pairs.map fun pair => .list [.str pair.1, .str pair.2])

end Json
