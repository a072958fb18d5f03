import InferenceRouter.CommandLine

/-!
# What the parsers of `HOST:PORT[:WEIGHT]` accept

`parse_backend_spec` looks for the first colon and for the last, and `atoi` stops at the next
character that is not a digit.  A string has no colon, one, or a first and a last one, and
`parseBackendSpec_one` and `parseBackendSpec_many` say what the parser makes of the parts.

Every well-formed string is decoded, and so is much else: `atoi` skips white space, a sign and
whatever follows the digits, and of the fields between the first colon and the last only the
first is looked at.
-/

namespace InferenceRouter.CommandLine

open BackendSet

/-! ## Decimal numbers -/

/-- The digits of a number; zeros may come first. -/
structure Decimal (n : Nat) (s : List Char) : Prop where
  ne_nil : s ≠ []
  digits : ∀ c ∈ s, c.isDigit = true
  value : Nat.ofDigitChars 10 s 0 = n

/-- A number as it is printed. -/
theorem decimal_toDigits (n : Nat) : Decimal n (Nat.toDigits 10 n) where
  ne_nil := Nat.toDigits_ne_nil
  digits _ hc := Nat.isDigit_of_mem_toDigits (by decide) (by decide) hc
  value := Nat.ofDigitChars_toDigits (by decide) (by decide)

/-- The digits end where something else begins. -/
theorem leadingNat_append {s rest : List Char} (hs : ∀ c ∈ s, c.isDigit = true)
    (hrest : ∀ c, rest.head? = some c → c.isDigit = false) :
    leadingNat (s ++ rest) = Nat.ofDigitChars 10 s 0 := by
  have hstop : rest.takeWhile Char.isDigit = [] := by
    cases rest with
    | nil => rfl
    | cons c rest => simp [hrest c rfl]
  rw [leadingNat, List.takeWhile_append_of_pos hs, hstop, List.append_nil]
  rfl

theorem colon_not_digit (suf : List Char) :
    ∀ c, (':' :: suf).head? = some c → c.isDigit = false := by
  rintro c ⟨⟩
  rfl

theorem nil_not_digit : ∀ c, ([] : List Char).head? = some c → c.isDigit = false := by
  rintro c ⟨⟩

theorem not_isSpace_of_isDigit {c : Char} (h : c.isDigit = true) : isSpace c = false := by
  rw [Bool.eq_false_iff]
  intro hspace
  simp only [isSpace, List.mem_cons, List.not_mem_nil, or_false, decide_eq_true_eq] at hspace
  rcases hspace with rfl | rfl | rfl | rfl | rfl | rfl <;> cases h

/-- A number that begins with a digit has no sign. -/
theorem leadingInt_digit {c : Char} (h : c.isDigit = true) (s : List Char) :
    leadingInt (c :: s) = leadingNat (c :: s) := by
  rw [leadingInt, List.dropWhile_cons_of_neg (by simp [not_isSpace_of_isDigit h])]
  split
  next hminus =>
    cases hminus
    cases h
  next hplus =>
    cases hplus
    cases h
  next => rfl

theorem Decimal.leadingInt_append {n : Nat} {s rest : List Char} (h : Decimal n s)
    (hrest : ∀ c, rest.head? = some c → c.isDigit = false) : leadingInt (s ++ rest) = n := by
  have hvalue := leadingNat_append h.digits hrest
  rw [h.value] at hvalue
  cases s with
  | nil => exact absurd rfl h.ne_nil
  | cons c s =>
      rw [List.cons_append] at hvalue ⊢
      rw [leadingInt_digit (h.digits c List.mem_cons_self), hvalue]

theorem Decimal.not_mem_colon {n : Nat} {s : List Char} (h : Decimal n s) : ':' ∉ s := by
  intro hmem
  have hdigit := h.digits ':' hmem
  cases hdigit

/-! ## Colons -/

theorem find_eq_none {s : List Char} (h : ':' ∉ s) : find s = none := by
  rw [find, List.findIdx?_eq_none_iff]
  intro c hc
  exact decide_eq_false (fun heq => h (heq ▸ hc))

theorem find_append {pre : List Char} (hpre : ':' ∉ pre) (suf : List Char) :
    find (pre ++ ':' :: suf) = some pre.length := by
  have hnone := find_eq_none hpre
  rw [find] at hnone ⊢
  rw [List.findIdx?_append, hnone, List.findIdx?_cons]
  simp

theorem rfind_append (pre : List Char) {suf : List Char} (hsuf : ':' ∉ suf) :
    rfind (pre ++ ':' :: suf) = some pre.length := by
  have hrev : (pre ++ ':' :: suf).reverse = suf.reverse ++ ':' :: pre.reverse := by simp
  rw [rfind, hrev, find_append (by simpa using hsuf), Option.map_some, List.length_reverse,
    List.length_append, List.length_cons]
  congr 1
  omega

/-- No colon, one colon, or a first and a last one. -/
theorem colon_cases (s : List Char) :
    ':' ∉ s ∨ (∃ pre suf, s = pre ++ ':' :: suf ∧ ':' ∉ pre ∧ ':' ∉ suf) ∨
      ∃ pre mid suf, s = pre ++ ':' :: (mid ++ ':' :: suf) ∧ ':' ∉ pre ∧ ':' ∉ suf := by
  by_cases hs : ':' ∈ s
  · right
    obtain ⟨pre, rest, rfl, hpre⟩ := List.eq_append_cons_of_mem hs
    by_cases hrest : ':' ∈ rest
    · right
      obtain ⟨suf, mid, hrev, hsuf⟩ := List.eq_append_cons_of_mem (List.mem_reverse.mpr hrest)
      have hsplit : rest = mid.reverse ++ ':' :: suf.reverse := by
        rw [← List.reverse_reverse rest, hrev]
        simp
      exact ⟨pre, mid.reverse, suf.reverse, by rw [hsplit], hpre, by simpa using hsuf⟩
    · exact .inl ⟨pre, rest, rfl, hpre, hrest⟩
  · exact .inl hs

section Parsers

variable {libc : Libc} {pre mid suf : List Char}

theorem drop_length_succ (pre suf : List Char) :
    (pre ++ ':' :: suf).drop (pre.length + 1) = suf := by
  rw [List.drop_length_add_append]
  rfl

theorem parseBackendSpec_none (h : ':' ∉ pre) : parseBackendSpec libc pre = none := by
  simp only [parseBackendSpec, find_eq_none h]
  split
  next hfind => cases hfind
  next => rfl

/-- One colon. -/
theorem parseBackendSpec_one (hpre : ':' ∉ pre) (hsuf : ':' ∉ suf) :
    parseBackendSpec libc (pre ++ ':' :: suf) =
      if pre = [] then none
      else (parsePort libc suf).map (fun port =>
        { host := .ofList pre, port := port, weight := 1 }) := by
  simp only [parseBackendSpec, rfind_append pre hsuf, find_append hpre, drop_length_succ,
    List.take_left, List.length_eq_zero_iff, if_true]

/-- A first colon and a last one. -/
theorem parseBackendSpec_many (hpre : ':' ∉ pre) (hsuf : ':' ∉ suf) :
    parseBackendSpec libc (pre ++ ':' :: (mid ++ ':' :: suf)) =
      (parsePort libc (mid ++ ':' :: suf)).bind (fun port =>
        if libc.atoi suf < 0 then none
        else some {
          host := .ofList pre
          port := port
          weight := .ofNat (sizeT (if libc.atoi suf = 0 then 1 else libc.atoi suf)) }) := by
  have hshape : pre ++ ':' :: (mid ++ ':' :: suf) = (pre ++ ':' :: mid) ++ ':' :: suf := by simp
  have hrfind : rfind (pre ++ ':' :: (mid ++ ':' :: suf)) = some (pre.length + 1 + mid.length) := by
    rw [hshape, rfind_append _ hsuf, List.length_append, List.length_cons]
    congr 1
    omega
  have hdrop :
      (pre ++ ':' :: (mid ++ ':' :: suf)).drop (pre.length + 1 + mid.length + 1) = suf := by
    have hlen : pre.length + 1 + mid.length = (pre ++ ':' :: mid).length := by
      rw [List.length_append, List.length_cons]
      omega
    rw [hshape, hlen, drop_length_succ]
  have hpos : ¬ pre.length + 1 + mid.length = 0 := by omega
  have hne : ¬ pre.length = pre.length + 1 + mid.length := by omega
  simp only [parseBackendSpec, hrfind, find_append hpre, hpos, hne, if_false, drop_length_succ,
    List.take_left, hdrop]

/-- `parse_host_port` looks at the last colon only. -/
theorem parseHostPort_eq (pre : List Char) (hsuf : ':' ∉ suf) :
    parseHostPort libc (pre ++ ':' :: suf) =
      if pre = [] then none else (parsePort libc suf).map (fun port => (.ofList pre, port)) := by
  simp only [parseHostPort, rfind_append pre hsuf, drop_length_succ, List.take_left,
    List.length_eq_zero_iff]

/-- What `parsePort` accepts. -/
theorem parsePort_eq_some_iff {s : List Char} {port : UInt16} :
    parsePort libc s = some port ↔ 1 ≤ libc.atoi s ∧ libc.atoi s = port.toNat := by
  have hlt := port.toNat_lt
  simp only [parsePort]
  split
  next hbad =>
    constructor
    · nofun
    · rintro ⟨hpos, heq⟩
      omega
  next hgood =>
    simp only [Option.some.injEq, ← UInt16.toNat_inj, UInt16.toNat_ofNat']
    constructor
    · intro heq
      omega
    · rintro ⟨-, heq⟩
      omega

end Parsers

/-! ## Well-formed strings -/

/-- What the parsers make of a well-formed string. -/
structure Decodes (libc : Libc) (host : List Char) (port weight : Nat) : Prop where
  /-- `HOST:PORT`. -/
  spec : ∀ ps, Decimal port ps → parseBackendSpec libc (host ++ ':' :: ps) =
    some { host := .ofList host, port := .ofNat port, weight := 1 }
  /-- `HOST:PORT:WEIGHT`. -/
  weighted : ∀ ps ws, Decimal port ps → Decimal weight ws →
    parseBackendSpec libc (host ++ ':' :: (ps ++ ':' :: ws)) =
      some { host := .ofList host, port := .ofNat port, weight := .ofNat weight }
  hostPort : ∀ ps, Decimal port ps → parseHostPort libc (host ++ ':' :: ps) =
    some (.ofList host, .ofNat port)

section Decoding

variable (libc : Libc)

theorem Decimal.atoi_append {n : Nat} {s rest : List Char} (h : Decimal n s) (hn : n < 2 ^ 31)
    (hrest : ∀ c, rest.head? = some c → c.isDigit = false) : libc.atoi (s ++ rest) = n := by
  have hlead := h.leadingInt_append hrest
  rw [libc.atoi_eq _ ⟨by omega, by omega⟩, hlead]

theorem Decimal.atoi {n : Nat} {s : List Char} (h : Decimal n s) (hn : n < 2 ^ 31) :
    libc.atoi s = n := by
  have heq := h.atoi_append libc hn nil_not_digit
  rwa [List.append_nil] at heq

theorem parsePort_of_atoi {s : List Char} {port : Nat} (h : libc.atoi s = port) (hpos : 1 ≤ port)
    (hle : port ≤ 65535) : parsePort libc s = some (.ofNat port) := by
  rw [parsePort_eq_some_iff, h, UInt16.toNat_ofNat']
  omega

theorem sizeT_natCast {n : Nat} (h : n < 2 ^ 64) : sizeT n = n := by
  rw [sizeT, Int.emod_eq_of_lt (by omega) (by omega), Int.toNat_natCast]

/-- With one colon the two parsers are the same. -/
theorem parseHostPort_parseBackendSpec {s : List Char} (h : s.count ':' = 1) :
    parseHostPort libc s = (parseBackendSpec libc s).map (fun b => (b.host, b.port)) := by
  rcases colon_cases s with hnone | ⟨pre, suf, rfl, hpre, hsuf⟩ | ⟨pre, mid, suf, rfl, -, -⟩
  · rw [List.count_eq_zero_of_not_mem hnone] at h
    cases h
  · rw [parseHostPort_eq pre hsuf, parseBackendSpec_one hpre hsuf]
    split
    next => rfl
    next => rw [Option.map_map]; rfl
  · simp only [List.count_append, List.count_cons_self] at h
    omega

theorem parsers_decode (host : List Char) (port weight : Nat) (hhost : host ≠ [])
    (hcolon : ':' ∉ host) (hport : 1 ≤ port ∧ port ≤ 65535)
    (hweight : 1 ≤ weight ∧ weight ≤ 2 ^ 31 - 1) :
    Decodes libc host port weight ∧
      (∀ s, s.count ':' = 1 → parseHostPort libc s =
        (parseBackendSpec libc s).map (fun b => (b.host, b.port))) ∧
      ∀ n, Decimal n (Nat.toDigits 10 n) := by
  obtain ⟨hpos, hle⟩ := hport
  refine ⟨?_, fun s hs => parseHostPort_parseBackendSpec libc hs, decimal_toDigits⟩
  constructor
  case spec =>
    intro ps hps
    have hp := parsePort_of_atoi libc (hps.atoi libc (by omega)) hpos hle
    rw [parseBackendSpec_one hcolon hps.not_mem_colon, if_neg hhost, hp, Option.map_some]
  case weighted =>
    intro ps ws hps hws
    have hp := parsePort_of_atoi libc (hps.atoi_append libc (by omega) (colon_not_digit ws))
      hpos hle
    have hw := hws.atoi libc (by omega)
    have hneg : ¬ (weight : Int) < 0 := by omega
    have hzero : ¬ (weight : Int) = 0 := by omega
    rw [parseBackendSpec_many hcolon hws.not_mem_colon, hp, Option.bind_some, hw, if_neg hneg,
      if_neg hzero, sizeT_natCast (by omega)]
  case hostPort =>
    intro ps hps
    have hp := parsePort_of_atoi libc (hps.atoi libc (by omega)) hpos hle
    rw [parseHostPort_eq host hps.not_mem_colon, if_neg hhost, hp, Option.map_some]

end Decoding

theorem parsers_decode_localhost :
    parseBackendSpec Libc.wrapping "localhost:9090:3".toList =
        some { host := "localhost", port := 9090, weight := 3 } ∧
      Decodes Libc.wrapping "localhost".toList 9090 3 := by
  obtain ⟨hdecodes, -⟩ := parsers_decode Libc.wrapping "localhost".toList 9090 3 (by decide)
    (by decide) (by decide) (by decide)
  exact ⟨hdecodes.weighted _ _ (decimal_toDigits 9090) (decimal_toDigits 3), hdecodes⟩

/-! ## Other strings -/

/-- `s` is `HOST:PORT[:WEIGHT]`, and `b` is what it says. -/
inductive IsSpec : List Char → BackendSpec → Prop where
  | port {host ps : List Char} {b : BackendSpec} (hhost : host ≠ []) (hcolon : ':' ∉ host)
      (hpos : 1 ≤ b.port.toNat) (hport : Decimal b.port.toNat ps) (hname : b.host = .ofList host)
      (hone : b.weight = 1) : IsSpec (host ++ ':' :: ps) b
  | weight {host ps ws : List Char} {b : BackendSpec} {n : Nat} (hhost : host ≠ [])
      (hcolon : ':' ∉ host) (hpos : 1 ≤ b.port.toNat) (hport : Decimal b.port.toNat ps)
      (hweight : Decimal n ws) (hname : b.host = .ofList host)
      (hn : b.weight.toNat = if n = 0 then 1 else n) : IsSpec (host ++ ':' :: (ps ++ ':' :: ws)) b

/-- The colons are not outside and no more than two, and there are only digits after the
first. -/
def Plain (s : List Char) : Prop :=
  s.head? ≠ some ':' ∧ s.getLast? ≠ some ':' ∧ s.count ':' ≤ 2 ∧
    ∀ c ∈ s.dropWhile (· ≠ ':'), c = ':' ∨ c.isDigit = true

instance (s : List Char) : Decidable (Plain s) :=
  -- by the list, and not by all characters
  haveI : Decidable (∀ c ∈ s.dropWhile (· ≠ ':'), c = ':' ∨ c.isDigit = true) :=
    List.decidableBAll _ _
  inferInstanceAs (Decidable (_ ∧ _ ∧ _ ∧ _))

instance (n : Int) : Decidable (IsInt n) := inferInstanceAs (Decidable (_ ∧ _))

/-- What follows the first colon, where the port is read. -/
def portText (s : List Char) : List Char := (s.dropWhile (· ≠ ':')).tail

/-- What follows the last colon, where the weight is read if that is another one. -/
def weightText (s : List Char) : List Char := (s.reverse.takeWhile (· ≠ ':')).reverse

/-- The numbers that are read are `int`s. -/
def Representable (s : List Char) : Prop :=
  IsInt (leadingInt (portText s)) ∧ IsInt (leadingInt (weightText s))

instance (s : List Char) : Decidable (Representable s) := inferInstanceAs (Decidable (_ ∧ _))

/-- There is no colon, or nothing before the only one, or no port in range, or a weight below
zero. -/
def Refused (s : List Char) : Prop :=
  s.count ':' = 0 ∨ s.count ':' = 1 ∧ s.head? = some ':' ∨
    ¬ (1 ≤ leadingInt (portText s) ∧ leadingInt (portText s) ≤ 65535) ∨
    2 ≤ s.count ':' ∧ leadingInt (weightText s) < 0

instance (s : List Char) : Decidable (Refused s) := inferInstanceAs (Decidable (_ ∨ _ ∨ _ ∨ _))

theorem dropWhile_colon {pre : List Char} (hpre : ':' ∉ pre) (rest : List Char) :
    (pre ++ ':' :: rest).dropWhile (· ≠ ':') = ':' :: rest := by
  rw [List.dropWhile_append_of_pos, List.dropWhile_cons_of_neg (by simp)]
  intro c hc
  exact decide_eq_true (fun heq => hpre (heq ▸ hc))

theorem portText_append {pre : List Char} (hpre : ':' ∉ pre) (rest : List Char) :
    portText (pre ++ ':' :: rest) = rest := by
  rw [portText, dropWhile_colon hpre, List.tail_cons]

theorem weightText_append (pre : List Char) {suf : List Char} (hsuf : ':' ∉ suf) :
    weightText (pre ++ ':' :: suf) = suf := by
  have hrev : (pre ++ ':' :: suf).reverse = suf.reverse ++ ':' :: pre.reverse := by simp
  have hall : ∀ c ∈ suf.reverse, decide (c ≠ ':') = true := by
    intro c hc
    exact decide_eq_true (fun heq => hsuf (heq ▸ List.mem_reverse.mp hc))
  rw [weightText, hrev, List.takeWhile_append_of_pos hall, List.takeWhile_cons_of_neg (by simp),
    List.append_nil, List.reverse_reverse]

/-- A first colon, and a last one. -/
theorem weightText_append_append (pre mid : List Char) {suf : List Char} (hsuf : ':' ∉ suf) :
    weightText (pre ++ ':' :: (mid ++ ':' :: suf)) = suf := by
  have hshape : pre ++ ':' :: (mid ++ ':' :: suf) = (pre ++ ':' :: mid) ++ ':' :: suf := by simp
  rw [hshape, weightText_append _ hsuf]

theorem head?_colon {pre rest : List Char} (hpre : ':' ∉ pre) :
    (pre ++ ':' :: rest).head? = some ':' ↔ pre = [] := by
  cases pre with
  | nil => simp
  | cons c pre =>
      have hne : c ≠ ':' := fun heq => hpre (heq ▸ List.mem_cons_self)
      simp [hne]

/-- `Plain`, from the first colon. -/
theorem plain_iff {pre rest : List Char} (hpre : ':' ∉ pre) :
    Plain (pre ++ ':' :: rest) ↔ pre ≠ [] ∧ rest ≠ [] ∧ rest.getLast? ≠ some ':' ∧
      rest.count ':' ≤ 1 ∧ ∀ c ∈ rest, c = ':' ∨ c.isDigit = true := by
  have hhead : (pre ++ ':' :: rest).head? ≠ some ':' ↔ pre ≠ [] := not_congr (head?_colon hpre)
  have hlast : (pre ++ ':' :: rest).getLast? ≠ some ':' ↔
      rest ≠ [] ∧ rest.getLast? ≠ some ':' := by
    rw [List.getLast?_append_cons]
    cases rest with
    | nil => simp
    | cons c rest => simp [List.getLast?_cons_cons]
  have hcount : (pre ++ ':' :: rest).count ':' ≤ 2 ↔ rest.count ':' ≤ 1 := by
    rw [List.count_append, List.count_eq_zero_of_not_mem hpre, List.count_cons_self]
    omega
  rw [Plain, dropWhile_colon hpre, hhead, hlast, hcount, List.forall_mem_cons]
  simp [and_assoc]

theorem Decimal.getLast_ne {n : Nat} {s : List Char} (h : Decimal n s) : s.getLast? ≠ some ':' := by
  intro hlast
  exact h.not_mem_colon (List.mem_of_getLast? hlast)

theorem IsSpec.plain {s : List Char} {b : BackendSpec} (h : IsSpec s b) : Plain s := by
  cases h with
  | port hhost hcolon hpos hport hname hone =>
      rw [plain_iff hcolon]
      refine ⟨hhost, hport.ne_nil, hport.getLast_ne, ?_, fun c hc => .inr (hport.digits c hc)⟩
      rw [List.count_eq_zero_of_not_mem hport.not_mem_colon]
      omega
  | @weight host ps ws b n hhost hcolon hpos hport hweight hname hn =>
      rw [plain_iff hcolon]
      refine ⟨hhost, by simp, ?_, ?_, ?_⟩
      · have hlast := hweight.getLast_ne
        rw [List.getLast?_append_cons]
        cases ws with
        | nil => exact absurd rfl hweight.ne_nil
        | cons c ws => rwa [List.getLast?_cons_cons]
      · rw [List.count_append, List.count_eq_zero_of_not_mem hport.not_mem_colon,
          List.count_cons_self, List.count_eq_zero_of_not_mem hweight.not_mem_colon]
      · intro c hc
        rcases List.mem_append.mp hc with hc | hc
        · exact .inr (hport.digits c hc)
        · rcases List.mem_cons.mp hc with rfl | hc
          · exact .inl rfl
          · exact .inr (hweight.digits c hc)

section Accepted

variable {libc : Libc}

/-- A string of digits that does not begin a longer one, read by `atoi`. -/
theorem exists_decimal (libc : Libc) {s rest : List Char} (hs : ∀ c ∈ s, c.isDigit = true)
    (hne : s ≠ []) (hrest : ∀ c, rest.head? = some c → c.isDigit = false)
    (hint : IsInt (leadingInt (s ++ rest))) :
    ∃ n : Nat, Decimal n s ∧ libc.atoi (s ++ rest) = n ∧ n < 2 ^ 31 := by
  have hdecimal : Decimal (Nat.ofDigitChars 10 s 0) s := ⟨hne, hs, rfl⟩
  have hlead := hdecimal.leadingInt_append hrest
  refine ⟨_, hdecimal, ?_, ?_⟩
  · rw [libc.atoi_eq _ hint, hlead]
  · rw [hlead] at hint
    have hlt := hint.2
    omega

theorem isSpec_one {pre suf : List Char} {b : BackendSpec} (hpre : ':' ∉ pre) (hsuf : ':' ∉ suf)
    (h : parseBackendSpec libc (pre ++ ':' :: suf) = some b)
    (hint : Representable (pre ++ ':' :: suf)) (hplain : Plain (pre ++ ':' :: suf)) :
    IsSpec (pre ++ ':' :: suf) b := by
  obtain ⟨hhost, hne, -, -, hchars⟩ := (plain_iff hpre).mp hplain
  have hdigits : ∀ c ∈ suf, c.isDigit = true := fun c hc =>
    (hchars c hc).resolve_left (fun heq => hsuf (heq ▸ hc))
  have hsufInt := hint.1
  rw [portText_append hpre, ← List.append_nil suf] at hsufInt
  obtain ⟨n, hn, hatoi, -⟩ := exists_decimal libc hdigits hne nil_not_digit hsufInt
  rw [List.append_nil] at hatoi
  rw [parseBackendSpec_one hpre hsuf, if_neg hhost] at h
  obtain ⟨port, hport, rfl⟩ := Option.map_eq_some_iff.mp h
  obtain ⟨hpos, heq⟩ := parsePort_eq_some_iff.mp hport
  have hval : n = port.toNat := by omega
  subst hval
  exact .port hhost hpre (by simp only; omega) hn rfl rfl

theorem isSpec_two {pre mid suf : List Char} {b : BackendSpec} (hpre : ':' ∉ pre)
    (hsuf : ':' ∉ suf) (h : parseBackendSpec libc (pre ++ ':' :: (mid ++ ':' :: suf)) = some b)
    (hint : Representable (pre ++ ':' :: (mid ++ ':' :: suf)))
    (hplain : Plain (pre ++ ':' :: (mid ++ ':' :: suf))) :
    IsSpec (pre ++ ':' :: (mid ++ ':' :: suf)) b := by
  obtain ⟨hhost, -, hlast, hcount, hchars⟩ := (plain_iff hpre).mp hplain
  have hmid : ':' ∉ mid := by
    rw [← List.count_eq_zero]
    rw [List.count_append, List.count_cons_self] at hcount
    omega
  have hsufne : suf ≠ [] := by
    rintro rfl
    simp at hlast
  have hmidDigits : ∀ c ∈ mid, c.isDigit = true := fun c hc =>
    (hchars c (List.mem_append_left _ hc)).resolve_left (fun heq => hmid (heq ▸ hc))
  have hsufDigits : ∀ c ∈ suf, c.isDigit = true := fun c hc =>
    (hchars c (List.mem_append_right _ (List.mem_cons_of_mem _ hc))).resolve_left
      (fun heq => hsuf (heq ▸ hc))
  obtain ⟨hmidInt, hsufInt⟩ := hint
  rw [portText_append hpre] at hmidInt
  rw [weightText_append_append pre mid hsuf] at hsufInt
  rw [parseBackendSpec_many hpre hsuf] at h
  obtain ⟨port, hport, hw⟩ := Option.bind_eq_some_iff.mp h
  obtain ⟨hpos, heq⟩ := parsePort_eq_some_iff.mp hport
  -- an empty port reads as zero
  have hmidne : mid ≠ [] := by
    rintro rfl
    rw [List.nil_append] at hpos hmidInt
    rw [libc.atoi_eq _ hmidInt] at hpos
    have hzero : leadingInt (':' :: suf) = 0 := rfl
    omega
  obtain ⟨n, hn, hatoi, -⟩ :=
    exists_decimal libc hmidDigits hmidne (colon_not_digit suf) hmidInt
  have hval : n = port.toNat := by omega
  subst hval
  rw [← List.append_nil suf] at hsufInt
  obtain ⟨w, hdecimal, hatoiw, hlt⟩ := exists_decimal libc hsufDigits hsufne nil_not_digit hsufInt
  rw [List.append_nil] at hatoiw
  rw [hatoiw, if_neg (by omega)] at hw
  cases hw
  refine .weight hhost hpre (by simp only; omega) hn hdecimal rfl ?_
  simp only [Nat.cast_eq_zero]
  split
  next => rfl
  next => rw [sizeT_natCast (by omega), UInt64.toNat_ofNat']; omega

theorem parsePort_eq_none_iff {s : List Char} (hint : IsInt (leadingInt s)) :
    parsePort libc s = none ↔ ¬ (1 ≤ leadingInt s ∧ leadingInt s ≤ 65535) := by
  simp only [parsePort, libc.atoi_eq s hint]
  split
  next hbad => exact iff_of_true rfl (by omega)
  next hgood => exact iff_of_false nofun (by omega)

/-- What is rejected. -/
theorem parseBackendSpec_eq_none_iff {s : List Char} (hint : Representable s) :
    parseBackendSpec libc s = none ↔ Refused s := by
  obtain ⟨hport, hweight⟩ := hint
  rcases colon_cases s with hnone | ⟨pre, suf, rfl, hpre, hsuf⟩ | ⟨pre, mid, suf, rfl, hpre, hsuf⟩
  · exact iff_of_true (parseBackendSpec_none hnone)
      (.inl (List.count_eq_zero_of_not_mem hnone))
  · have hcount : (pre ++ ':' :: suf).count ':' = 1 := by
      rw [List.count_append, List.count_cons_self, List.count_eq_zero_of_not_mem hpre,
        List.count_eq_zero_of_not_mem hsuf]
    rw [portText_append hpre] at hport
    rw [parseBackendSpec_one hpre hsuf, Refused, hcount, portText_append hpre, head?_colon hpre]
    split
    next hhost => exact iff_of_true rfl (.inr (.inl ⟨rfl, hhost⟩))
    next hhost =>
      rw [Option.map_eq_none_iff, parsePort_eq_none_iff hport]
      simp [hhost]
  · have hcount : 2 ≤ (pre ++ ':' :: (mid ++ ':' :: suf)).count ':' := by
      rw [List.count_append, List.count_cons_self, List.count_append, List.count_cons_self]
      omega
    have hzero : (pre ++ ':' :: (mid ++ ':' :: suf)).count ':' ≠ 0 := by omega
    have hone : (pre ++ ':' :: (mid ++ ':' :: suf)).count ':' ≠ 1 := by omega
    rw [portText_append hpre] at hport
    rw [weightText_append_append pre mid hsuf] at hweight
    rw [parseBackendSpec_many hpre hsuf, Refused, portText_append hpre,
      weightText_append_append pre mid hsuf, libc.atoi_eq suf hweight, Option.bind_eq_none_iff,
      ← @parsePort_eq_none_iff libc _ hport]
    simp only [hzero, hone, hcount, false_and, true_and, false_or]
    -- the weight is looked at only behind a port that is in range
    cases parsePort libc (mid ++ ':' :: suf) with
    | none => simp
    | some port => simp

/-- What is accepted is a well-formed string, and decoded as it should be, exactly if the
string is plain or rejected. -/
theorem parse_backend_spec_exact (libc : Libc) {s : List Char} (hint : Representable s) :
    (∀ b, parseBackendSpec libc s = some b → IsSpec s b) ↔ Plain s ∨ Refused s := by
  constructor
  · intro hexact
    cases hb : parseBackendSpec libc s with
    | none => exact .inr ((parseBackendSpec_eq_none_iff hint).mp hb)
    | some b => exact .inl (hexact b hb).plain
  · rintro (hplain | hrefused) b hb
    · rcases colon_cases s with
        hnone | ⟨pre, suf, rfl, hpre, hsuf⟩ | ⟨pre, mid, suf, rfl, hpre, hsuf⟩
      · rw [parseBackendSpec_none hnone] at hb
        cases hb
      · exact isSpec_one hpre hsuf hb hint hplain
      · exact isSpec_two hpre hsuf hb hint hplain
    · rw [(parseBackendSpec_eq_none_iff hint).mpr hrefused] at hb
      cases hb

end Accepted

/-- A string that is accepted, and one that is not. -/
theorem parse_backend_spec_exact_localhost :
    (∃ b, parseBackendSpec Libc.wrapping "localhost:9090:0".toList = some b ∧
      IsSpec "localhost:9090:0".toList b) ∧
    ¬ Plain "h:x".toList ∧ ∀ b, parseBackendSpec Libc.wrapping "h:x".toList = some b →
      IsSpec "h:x".toList b := by
  refine ⟨⟨_, rfl, ?_⟩, by decide, ?_⟩
  · exact (parse_backend_spec_exact Libc.wrapping (by decide)).mpr (.inl (by decide)) _ rfl
  · exact (parse_backend_spec_exact Libc.wrapping (by decide)).mpr (.inr (by decide))

/-- No host, white space, a sign, other text, a field too many, an empty weight, and an IPv6
literal. -/
def malformed : List String :=
  [":80:1", "h: 80", "h:+80", "h:80abc", "h:80:1x", "h:80:x:2", "h:80:", "h:80:-0", "fe80:80::1"]

theorem accepted_of_malformed : ∀ s ∈ malformed, Representable s.toList ∧
    ∃ b, parseBackendSpec Libc.wrapping s.toList = some b ∧ ¬ IsSpec s.toList b := by
  have hall : ∀ s ∈ malformed, Representable s.toList ∧ ¬ Plain s.toList ∧
      (parseBackendSpec Libc.wrapping s.toList).isSome = true := by decide
  intro s hs
  obtain ⟨hint, hplain, hsome⟩ := hall s hs
  obtain ⟨b, hb⟩ := Option.isSome_iff_exists.mp hsome
  exact ⟨hint, b, hb, fun hspec => hplain hspec.plain⟩

theorem malformed_accepted : Representable ":80:1".toList ∧
    ∃ b, parseBackendSpec Libc.wrapping ":80:1".toList = some b ∧ ¬ IsSpec ":80:1".toList b :=
  accepted_of_malformed ":80:1" List.mem_cons_self

end InferenceRouter.CommandLine
