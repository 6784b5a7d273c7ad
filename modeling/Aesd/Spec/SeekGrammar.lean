import Aesd.Spec.ConnectionStep
import Aesd.Spec.DriverInvariant

/-!
# The seek command's grammar

The documented form of a seek command is the prefix, two decimal numbers with a comma between
them, and a newline (`IsSeekLine`). What decides is `sscanf`, on all that lies in memory behind
the prefix. `scanUnsigned_eq` and `exists_isNumber` say what one conversion takes: also leading
white space, a sign, and digits of any value. So every documented command is obeyed, and so is
much that is none; `Conn.seek_grammar_iff` says for which packets the two agree.
-/

namespace Aesd

variable {C : Libc} {space sign digits s t rest : List UInt8}

/-! ### One conversion -/

/-- White space, a sign and digits, as `%u` takes them. -/
structure IsNumber (space sign digits : List UInt8) : Prop where
  space : ∀ b ∈ space, isSpace b = true
  sign : sign = [] ∨ sign = [43] ∨ sign = [45]
  ne_nil : digits ≠ []
  digits : ∀ b ∈ digits, isDigit b = true

/-- No digit goes on at the start of `s`. -/
def NoDigitHead (s : List UInt8) : Prop := ∀ b ∈ s.head?, isDigit b = false

/-- The value of a conversion. -/
def convert (C : Libc) (sign digits : List UInt8) : UInt32 :=
  if sign ≠ [45] ∧ digitsValue digits < 2 ^ 32 then UInt32.ofNat (digitsValue digits)
  else C.outOfRange (sign == [45]) (digitsValue digits)

theorem isDigit_iff {b : UInt8} : isDigit b = true ↔ 48 ≤ b.toNat ∧ b.toNat ≤ 57 := by
  simp [isDigit, UInt8.le_iff_toNat_le]

theorem isSpace_eq_false {b : UInt8} (h : 32 < b.toNat) : isSpace b = false := by
  have hne : b ≠ 32 := by rintro rfl; exact absurd h (by decide)
  have hlt : ¬ b ≤ 13 := fun hle => by
    have hle := UInt8.le_iff_toNat_le.mp hle
    have h13 : (13 : UInt8).toNat = 13 := rfl
    omega
  simp [isSpace, hne, hlt]

/-- After the white space comes a byte that is none. -/
theorem IsNumber.span_space (h : IsNumber space sign digits) (rest : List UInt8) :
    (space ++ (sign ++ (digits ++ rest))).takeWhile isSpace = space ∧
      (space ++ (sign ++ (digits ++ rest))).dropWhile isSpace = sign ++ (digits ++ rest) := by
  obtain ⟨d, ds, hds⟩ := List.exists_cons_of_ne_nil h.ne_nil
  have hd := isDigit_iff.mp (h.digits d (by rw [hds]; exact List.mem_cons_self))
  have hhead : ∃ b l, sign ++ (digits ++ rest) = b :: l ∧ isSpace b = false := by
    rcases h.sign with rfl | rfl | rfl
    · exact ⟨d, ds ++ rest, by rw [hds]; rfl, isSpace_eq_false (by omega)⟩
    · exact ⟨43, digits ++ rest, rfl, rfl⟩
    · exact ⟨45, digits ++ rest, rfl, rfl⟩
  obtain ⟨b, l, hl, hb⟩ := hhead
  rw [List.takeWhile_append_of_pos h.space, List.dropWhile_append_of_pos h.space, hl,
    List.takeWhile_cons_of_neg (by simp [hb]), List.dropWhile_cons_of_neg (by simp [hb]),
    List.append_nil]
  exact ⟨rfl, rfl⟩

theorem scanSign_of_isDigit {b : UInt8} (l : List UInt8) (h : isDigit b = true) :
    scanSign (b :: l) = (false, b :: l) := by
  have hb := isDigit_iff.mp h
  have h45 : b ≠ 45 := by rintro rfl; exact absurd hb (by decide)
  have h43 : b ≠ 43 := by rintro rfl; exact absurd hb (by decide)
  unfold scanSign
  split
  · next heq => exact absurd (List.cons.inj heq).1 h45
  · next heq => exact absurd (List.cons.inj heq).1 h43
  · rfl

theorem IsNumber.scanSign_eq (h : IsNumber space sign digits) (rest : List UInt8) :
    scanSign (sign ++ (digits ++ rest)) = (sign == [45], digits ++ rest) := by
  obtain ⟨d, ds, hds⟩ := List.exists_cons_of_ne_nil h.ne_nil
  have hd := h.digits d (by rw [hds]; exact List.mem_cons_self)
  rcases h.sign with rfl | rfl | rfl
  · rw [hds]
    exact scanSign_of_isDigit (ds ++ rest) hd
  · rfl
  · rfl

/-- The digits go on until there is no more. -/
theorem IsNumber.span_digits (h : IsNumber space sign digits) (hrest : NoDigitHead rest) :
    (digits ++ rest).takeWhile isDigit = digits ∧ (digits ++ rest).dropWhile isDigit = rest := by
  rw [List.takeWhile_append_of_pos h.digits, List.dropWhile_append_of_pos h.digits]
  cases rest with
  | nil => simp
  | cons b l =>
    have hb : isDigit b = false := hrest b rfl
    simp [hb]

/-- What `%u` makes of a number. -/
theorem scanUnsigned_eq (h : IsNumber space sign digits) (hrest : NoDigitHead rest) :
    scanUnsigned C (space ++ (sign ++ (digits ++ rest))) = some (convert C sign digits, rest) := by
  obtain ⟨-, hspace⟩ := h.span_space rest
  obtain ⟨htake, hdrop⟩ := h.span_digits hrest
  simp only [scanUnsigned, hspace, h.scanSign_eq, htake, hdrop, if_neg h.ne_nil, convert]
  rcases h.sign with rfl | rfl | rfl <;> simp

/-- What `%u` takes is a number. -/
theorem exists_isNumber {value : UInt32} (h : scanUnsigned C s = some (value, rest)) :
    ∃ space sign digits, IsNumber space sign digits ∧ NoDigitHead rest ∧
      s = space ++ (sign ++ (digits ++ rest)) ∧ value = convert C sign digits := by
  have hsign : ∃ sign, (sign = [] ∨ sign = [43] ∨ sign = [45]) ∧
      s.dropWhile isSpace = sign ++ (scanSign (s.dropWhile isSpace)).2 := by
    generalize s.dropWhile isSpace = l
    unfold scanSign
    split
    · exact ⟨[45], by simp, rfl⟩
    · exact ⟨[43], by simp, rfl⟩
    · exact ⟨[], by simp, rfl⟩
  obtain ⟨sign, hsign, hl⟩ := hsign
  have hdigits := List.takeWhile_append_dropWhile (p := isDigit)
    (l := (scanSign (s.dropWhile isSpace)).2)
  rw [scanUnsigned] at h
  dsimp only at h
  split at h
  · exact nomatch h
  · next hne =>
    have hnum : IsNumber (s.takeWhile isSpace) sign
        ((scanSign (s.dropWhile isSpace)).2.takeWhile isDigit) :=
      ⟨fun b hb => by simpa using List.mem_takeWhile_imp hb, hsign, hne,
        fun b hb => by simpa using List.mem_takeWhile_imp hb⟩
    have hs : s = s.takeWhile isSpace ++ (sign ++
        ((scanSign (s.dropWhile isSpace)).2.takeWhile isDigit ++
          (scanSign (s.dropWhile isSpace)).2.dropWhile isDigit)) := by
      rw [hdigits, ← hl, List.takeWhile_append_dropWhile]
    have hrest : NoDigitHead ((scanSign (s.dropWhile isSpace)).2.dropWhile isDigit) := by
      intro b hb
      have hnot := List.head?_dropWhile_not isDigit (scanSign (s.dropWhile isSpace)).2
      rw [Option.mem_def.mp hb] at hnot
      exact hnot
    have hscan := scanUnsigned_eq (C := C) hnum hrest
    rw [← hs] at hscan
    rw [scanUnsigned] at hscan
    dsimp only at hscan
    rw [if_neg hne] at hscan
    obtain ⟨-, hr⟩ := Prod.mk.inj (Option.some.inj h)
    rw [← hr]
    refine ⟨_, _, _, hnum, hrest, hs, ?_⟩
    exact (Prod.mk.inj (Option.some.inj (h.symm.trans hscan))).1

/-- A text starts with a number in one way only. -/
theorem IsNumber.unique {space' sign' digits' rest' : List UInt8} (h : IsNumber space sign digits)
    (hrest : NoDigitHead rest) (h' : IsNumber space' sign' digits') (hrest' : NoDigitHead rest')
    (heq : space ++ (sign ++ (digits ++ rest)) = space' ++ (sign' ++ (digits' ++ rest'))) :
    space = space' ∧ sign = sign' ∧ digits = digits' ∧ rest = rest' := by
  have hspace : space = space' := by
    rw [← (h.span_space rest).1, heq, (h'.span_space rest').1]
  rw [hspace, List.append_cancel_left_eq] at heq
  have hbody : digits ++ rest = digits' ++ rest' := by
    have hscan := congrArg (fun l => (scanSign l).2) heq
    simpa only [h.scanSign_eq, h'.scanSign_eq] using hscan
  have hsign : sign = sign' := by
    rwa [hbody, List.append_cancel_right_eq] at heq
  have hdigits : digits = digits' := by
    rw [← (h.span_digits hrest).1, hbody, (h'.span_digits hrest').1]
  rw [hdigits, List.append_cancel_left_eq] at hbody
  exact ⟨hspace, hsign, hdigits, hbody⟩

/-! ### Both conversions -/

/-- A text that starts as `"%u,%u"` says. -/
structure SeekText where
  space₁ : List UInt8
  sign₁ : List UInt8
  xs : List UInt8
  space₂ : List UInt8
  sign₂ : List UInt8
  ys : List UInt8
  rest : List UInt8
  isNumber₁ : IsNumber space₁ sign₁ xs
  isNumber₂ : IsNumber space₂ sign₂ ys
  noDigitHead : NoDigitHead rest

namespace SeekText

/-- The bytes of the text. -/
def bytes (t : SeekText) : List UInt8 :=
  t.space₁ ++ (t.sign₁ ++ (t.xs ++ 44 :: (t.space₂ ++ (t.sign₂ ++ (t.ys ++ t.rest)))))

/-- The numbers `sscanf` stores. -/
def seekto (C : Libc) (t : SeekText) : AesdSeekto :=
  ⟨convert C t.sign₁ t.xs, convert C t.sign₂ t.ys⟩

/-- The text is nothing but two decimal numbers below `2 ^ 32` and a newline. -/
structure Plain (t : SeekText) : Prop where
  space₁ : t.space₁ = []
  sign₁ : t.sign₁ = []
  lt₁ : digitsValue t.xs < 2 ^ 32
  space₂ : t.space₂ = []
  sign₂ : t.sign₂ = []
  lt₂ : digitsValue t.ys < 2 ^ 32
  ended : t.rest.head? = some newline

theorem noDigitHead_comma (l : List UInt8) : NoDigitHead (44 :: l) := by
  rintro b hb
  obtain rfl := Option.some.inj hb
  rfl

theorem scanSeek_bytes (t : SeekText) : scanSeek C t.bytes = some (t.seekto C) := by
  rw [scanSeek, bytes, scanUnsigned_eq t.isNumber₁ (noDigitHead_comma _), Option.bind_eq_bind,
    Option.bind_some]
  change (scanUnsigned C (t.space₂ ++ (t.sign₂ ++ (t.ys ++ t.rest)))).bind
    (fun y => some ⟨convert C t.sign₁ t.xs, y.1⟩) = some (t.seekto C)
  rw [scanUnsigned_eq t.isNumber₂ t.noDigitHead, Option.bind_some]
  rfl

theorem exists_of_scanSeek {arg : AesdSeekto} (h : scanSeek C s = some arg) :
    ∃ t : SeekText, t.bytes = s ∧ t.seekto C = arg := by
  rw [scanSeek] at h
  obtain ⟨⟨x, s₁⟩, hscan₁, h⟩ := Option.bind_eq_some_iff.mp h
  obtain ⟨space₁, sign₁, xs, hnum₁, -, rfl, rfl⟩ := exists_isNumber hscan₁
  dsimp only at h
  split at h
  · obtain ⟨⟨y, rest⟩, hscan₂, h⟩ := Option.bind_eq_some_iff.mp h
    obtain ⟨space₂, sign₂, ys, hnum₂, hrest, rfl, rfl⟩ := exists_isNumber hscan₂
    exact ⟨⟨space₁, sign₁, xs, space₂, sign₂, ys, rest, hnum₁, hnum₂, hrest⟩, rfl,
      Option.some.inj h⟩
  · exact nomatch h

/-- The parts of a text are determined by its bytes. -/
theorem eq_of_bytes_eq {t u : SeekText} (h : t.bytes = u.bytes) : t = u := by
  obtain ⟨hspace₁, hsign₁, hxs, hrest₁⟩ := t.isNumber₁.unique (noDigitHead_comma _) u.isNumber₁
    (noDigitHead_comma _) h
  obtain ⟨hspace₂, hsign₂, hys, hrest₂⟩ := t.isNumber₂.unique t.noDigitHead u.isNumber₂
    u.noDigitHead (List.cons.inj hrest₁).2
  obtain ⟨⟩ := t
  obtain ⟨⟩ := u
  simp_all

end SeekText

/-! ### The documented command -/

/-- A decimal number. -/
def IsDecimal (digits : List UInt8) (value : UInt32) : Prop :=
  digits ≠ [] ∧ (∀ b ∈ digits, isDigit b = true) ∧ digitsValue digits = value.toNat

/-- The line `AESDCHAR_IOCSEEKTO:X,Y`, ended by a newline. -/
def IsSeekLine (line : List UInt8) (seekto : AesdSeekto) : Prop :=
  ∃ xs ys, IsDecimal xs seekto.writeCmd ∧ IsDecimal ys seekto.writeCmdOffset ∧
    line = seekPrefix ++ (xs ++ 44 :: (ys ++ [newline]))

theorem not_isDigit_newline : isDigit newline = false := rfl

/-- A documented command is a line. -/
theorem IsSeekLine.isLine {line : List UInt8} {seekto : AesdSeekto} (h : IsSeekLine line seekto) :
    Lines.IsLine isNewline line := by
  obtain ⟨xs, ys, ⟨-, hxs, -⟩, ⟨-, hys, -⟩, rfl⟩ := h
  have hdigit : ∀ b, isDigit b = true → isNewline b = false := by
    intro b hb
    cases hnl : isNewline b with
    | false => rfl
    | true =>
      rw [eq_of_beq hnl, not_isDigit_newline] at hb
      exact absurd hb (by decide)
  have hprefix : ∀ b ∈ seekPrefix, isNewline b = false := by simp [seekPrefix, isNewline, newline]
  refine ⟨seekPrefix ++ (xs ++ 44 :: ys), newline, by simp, rfl, fun b hb => ?_⟩
  rcases List.mem_append.mp hb with hb | hb
  · exact hprefix b hb
  · rcases List.mem_append.mp hb with hb | hb
    · exact hdigit b (hxs b hb)
    · rcases List.mem_cons.mp hb with rfl | hb
      · rfl
      · exact hdigit b (hys b hb)

/-- A plain text behind the prefix makes the first line a documented command. -/
theorem SeekText.Plain.isSeekLine {t : SeekText} (h : t.Plain) {line more : List UInt8}
    (hline : Lines.IsLine isNewline line) (hbytes : line ++ more = seekPrefix ++ t.bytes) :
    IsSeekLine line (t.seekto C) := by
  obtain ⟨rest, hrest⟩ : ∃ rest, t.rest = newline :: rest := by
    cases hcons : t.rest with
    | nil => exact nomatch hcons ▸ h.ended
    | cons b l =>
      obtain rfl : b = newline := by simpa [hcons] using h.ended
      exact ⟨l, rfl⟩
  have hvalue : ∀ digits, digitsValue digits < 2 ^ 32 →
      digitsValue digits = (convert C [] digits).toNat := by
    intro digits hlt
    rw [convert, if_pos ⟨by simp, hlt⟩, UInt32.toNat_ofNat', Nat.mod_eq_of_lt hlt]
  have hseek : IsSeekLine (seekPrefix ++ (t.xs ++ 44 :: (t.ys ++ [newline]))) (t.seekto C) := by
    refine ⟨t.xs, t.ys, ⟨t.isNumber₁.ne_nil, t.isNumber₁.digits, ?_⟩,
      ⟨t.isNumber₂.ne_nil, t.isNumber₂.digits, ?_⟩, rfl⟩
    · rw [seekto, h.sign₁]
      exact hvalue _ h.lt₁
    · rw [seekto, h.sign₂]
      exact hvalue _ h.lt₂
  -- both are the first line of the same bytes
  have hfirst : line ++ more = (seekPrefix ++ (t.xs ++ 44 :: (t.ys ++ [newline]))) ++ rest := by
    rw [hbytes, bytes, h.space₁, h.sign₁, h.space₂, h.sign₂, hrest]
    simp
  have hlines := congrArg (Lines.lines isNewline) hfirst
  rw [hline.lines_append, hseek.isLine.lines_append] at hlines
  rw [(List.cons.inj hlines).1]
  exact hseek

/-- A documented command is obeyed whatever follows it. -/
theorem IsSeekLine.exists_plain {line : List UInt8} {arg : AesdSeekto} (h : IsSeekLine line arg)
    (more : List UInt8) :
    ∃ t : SeekText, t.Plain ∧ t.seekto C = arg ∧ line ++ more = seekPrefix ++ t.bytes := by
  obtain ⟨xs, ys, ⟨hxs, hxdigits, hx⟩, ⟨hys, hydigits, hy⟩, rfl⟩ := h
  have hvalue : ∀ digits (value : UInt32), digitsValue digits = value.toNat →
      convert C [] digits = value := by
    intro digits value hval
    rw [convert, if_pos ⟨by simp, hval ▸ value.toNat_lt⟩, hval, UInt32.ofNat_toNat]
  have hnl : NoDigitHead (newline :: more) := by
    rintro b hb
    obtain rfl := Option.some.inj hb
    rfl
  refine ⟨⟨[], [], xs, [], [], ys, newline :: more, ⟨by simp, by simp, hxs, hxdigits⟩,
    ⟨by simp, by simp, hys, hydigits⟩, hnl⟩, ⟨rfl, rfl, hx ▸ UInt32.toNat_lt _, rfl, rfl,
    hy ▸ UInt32.toNat_lt _, rfl⟩, ?_, ?_⟩
  · rw [SeekText.seekto, hvalue xs _ hx, hvalue ys _ hy]
  · simp [SeekText.bytes]

/-- The prefix is found in the first line or not at all. -/
theorem seekPrefix_prefix_iff {line more : List UInt8} (hline : Lines.IsLine isNewline line) :
    seekPrefix <+: line ++ more ↔ seekPrefix <+: line := by
  constructor
  · intro h
    obtain ⟨body, s, rfl, hs, -⟩ := hline
    refine (List.prefix_or_prefix_of_prefix h (List.prefix_append _ _)).resolve_right
      fun hline => ?_
    have hmem : s ∈ seekPrefix := hline.subset (by simp)
    rw [eq_of_beq hs] at hmem
    exact absurd hmem (by decide)
  · exact fun h => h.trans (List.prefix_append _ _)

namespace Conn

variable {c : Conn} {es : List Call} {line : List UInt8}

/-- The thread's next call is the seek request `seekto`. -/
def Issues (C : Libc) (c : Conn) (seekto : AesdSeekto) : Prop :=
  ∃ fd ok, (step C c (.ioctl fd seekto ok)).isSome

/-- Where a thread has left `openWrite` with a descriptor. -/
def HasFile (c : Conn) : Prop :=
  c.gMyFileWrite.isSome ∨
    c.pc = .openWrite ∨ c.pc = .setDone ∨ c.pc = .closeClient ∨ c.pc = .returned

theorem hasFile_of_run {myClient : Nat} (hrun : (lts C).run (start myClient) es = some c) :
    c.HasFile := by
  refine Lts.run_invariant (I := HasFile) (.inr (.inl rfl)) (fun c call c' ih hstep => ?_) hrun
  cases trans_of_step hstep <;> simp_all [HasFile, tail, freePacket, received]

/-- A seek request is issued for what `sscanf` takes behind the prefix. -/
theorem issues_received_iff {chunk beyond : List UInt8} {seekto : AesdSeekto}
    (hfd : c.gMyFileWrite.isSome) (hnl : newline ∈ c.packet ++ chunk) :
    Issues C (c.received C chunk beyond) seekto ↔ ∃ t : SeekText,
      c.packet ++ chunk ++ beyond = seekPrefix ++ t.bytes ∧ t.seekto C = seekto := by
  obtain ⟨fd, hfd⟩ := Option.isSome_iff_exists.mp hfd
  have htext : ∀ t : SeekText, c.packet ++ chunk ++ beyond = seekPrefix ++ t.bytes →
      scanSeek C ((c.packet ++ chunk ++ beyond).drop seekPrefix.length) = some (t.seekto C) := by
    intro t ht
    rw [ht, List.drop_left, t.scanSeek_bytes]
  have hissues : ∀ c' : Conn, Issues C c' seekto → c'.pc = .ioctl seekto := by
    rintro c' ⟨fd', ok, hstep⟩
    obtain ⟨c'', hstep⟩ := Option.isSome_iff_exists.mp hstep
    cases trans_of_step hstep <;> assumption
  rcases c.received_cases C chunk beyond with
    ⟨hno, -⟩ | ⟨-, hno, hc⟩ | ⟨-, -, hscan, hc⟩ | ⟨arg, -, hprefix, hscan, hc⟩
  · exact absurd hnl hno
  · refine iff_of_false (fun h => ?_) fun ⟨t, ht, _⟩ => hno (ht ▸ List.prefix_append _ _)
    rw [hc] at h
    exact nomatch hissues _ h
  · refine iff_of_false (fun h => ?_) fun ⟨t, ht, _⟩ => ?_
    · rw [hc] at h
      exact nomatch hissues _ h
    · rw [htext t ht] at hscan
      exact nomatch hscan
  · constructor
    · intro h
      rw [hc] at h
      obtain rfl : arg = seekto := by simpa using hissues _ h
      obtain ⟨t, hbytes, hseekto⟩ := SeekText.exists_of_scanSeek hscan
      obtain ⟨more, hmore⟩ := hprefix
      refine ⟨t, ?_, hseekto⟩
      rw [hbytes, ← hmore, List.drop_left]
    · rintro ⟨t, ht, rfl⟩
      rw [htext t ht, Option.some.injEq] at hscan
      rw [hc, ← hscan]
      exact ⟨fd, true, by simp [step, hfd]⟩

/-- For every packet that a connection has received and whatever lies in memory behind it: the
    seek request is issued just for the documented command in the packet's first line, if and
    only if what lies behind the prefix does not start as `"%u,%u"` says, or starts with two
    decimal numbers below `2 ^ 32` without white space and signs, and a newline right after. -/
theorem seek_grammar_iff {myClient : Nat} {chunk beyond : List UInt8}
    (hrun : (lts C).run (start myClient) (es ++ [.recv (some chunk) beyond]) = some c)
    (hline : Lines.IsLine isNewline line) (hpacket : line <+: c.packet) :
    (∀ seekto, Issues C c seekto ↔ IsSeekLine line seekto) ↔
      ∀ t : SeekText, c.packet ++ beyond = seekPrefix ++ t.bytes → t.Plain := by
  obtain ⟨c₀, hrun₀, hstep⟩ := Lts.run_concat_eq_some.mp hrun
  obtain ⟨hpc, rfl⟩ : c₀.pc = .recv ∧ c = c₀.received C chunk beyond := by
    cases trans_of_step hstep with
    | recv hpc _ _ => exact ⟨hpc, rfl⟩
  have hfd : c₀.gMyFileWrite.isSome := by
    simpa [HasFile, hpc] using hasFile_of_run hrun₀
  change line <+: c₀.packet ++ chunk at hpacket
  change _ ↔ ∀ t : SeekText, c₀.packet ++ chunk ++ beyond = seekPrefix ++ t.bytes → t.Plain
  have hnl : newline ∈ c₀.packet ++ chunk := by
    obtain ⟨body, s, rfl, hs, -⟩ := hline
    rw [← eq_of_beq hs]
    exact hpacket.subset (by simp)
  obtain ⟨more, hmore⟩ := hpacket.trans (List.prefix_append _ beyond)
  simp only [issues_received_iff hfd hnl]
  constructor
  · intro h t ht
    have hseek := (h (t.seekto C)).mp ⟨t, ht, rfl⟩
    obtain ⟨u, hplain, -, hu⟩ := hseek.exists_plain (C := C) more
    rw [hmore, ht, List.append_cancel_left_eq] at hu
    rwa [SeekText.eq_of_bytes_eq hu]
  · intro h seekto
    constructor
    · rintro ⟨t, ht, rfl⟩
      exact (h t ht).isSeekLine hline (hmore.trans ht)
    · intro hseek
      obtain ⟨t, -, hseekto, ht⟩ := hseek.exists_plain (C := C) more
      exact ⟨t, hmore.symm.trans ht, hseekto⟩

/-- The line `AESDCHAR_IOCSEEKTO:0,0x`, which names no second number. -/
def trailingText : List UInt8 := seekPrefix ++ [48, 44, 48, 120, newline]

/-- A client that sends it. -/
def trailingTextCalls : List Call :=
  [.openWrite (some 4), .exitFlag false, .malloc true] ++ [.recv (some trailingText) []]

theorem isLine_trailingText : Lines.IsLine isNewline trailingText :=
  ⟨seekPrefix ++ [48, 44, 48, 120], newline, rfl, rfl, by simp [seekPrefix, isNewline, newline]⟩

theorem seek_grammar_iff_trailingText :
    ∃ c, (lts .glibc).run (start 3) trailingTextCalls = some c ∧
      ((∀ seekto, Issues .glibc c seekto ↔ IsSeekLine trailingText seekto) ↔
        ∀ t : SeekText, c.packet ++ [] = seekPrefix ++ t.bytes → t.Plain) :=
  ⟨((lts .glibc).run (start 3) trailingTextCalls).get (by decide), (Option.some_get _).symm,
    seek_grammar_iff (Option.some_get (by decide)).symm isLine_trailingText
      ⟨[], rfl⟩⟩

theorem trailingText_obeyed :
    ∃ c, (lts .glibc).run (start 3) trailingTextCalls = some c ∧ c.packet = trailingText ∧
      Issues .glibc c ⟨0, 0⟩ ∧ ¬ IsSeekLine trailingText ⟨0, 0⟩ := by
  refine ⟨((lts .glibc).run (start 3) trailingTextCalls).get (by decide),
    (Option.some_get _).symm, by decide, ⟨4, true, by decide⟩, fun h => ?_⟩
  obtain ⟨t, hplain, -, hbytes⟩ := h.exists_plain (C := .glibc) []
  have hnum : IsNumber [] [] [48] := ⟨by simp, by simp, by simp, by simp [isDigit]⟩
  have ht : t = ⟨[], [], [48], [], [], [48], [120, newline], hnum, hnum, by
      rintro b hb
      obtain rfl := Option.some.inj hb
      rfl⟩ := by
    have hsame : seekPrefix ++ t.bytes = seekPrefix ++ _ := hbytes.symm
    exact SeekText.eq_of_bytes_eq (List.append_cancel_left hsame)
  rw [ht] at hplain
  have hended : [120, newline].head? = some newline := hplain.ended
  exact absurd hended (by decide)

end Conn

end Aesd
