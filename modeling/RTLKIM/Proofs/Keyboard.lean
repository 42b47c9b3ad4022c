import Mathlib.Data.List.Forall2
import Mathlib.Tactic.SplitIfs
import RTLKIM.Keyboard

/-!
# The keyboard types into the line that is read

What a character does to the buffer of a call is what it does to the line, while the call listens; in the
statements before and after nothing is taken. From this a step for each event, and the runs.
-/

namespace RTLKIM

theorem KbdCall.Ok.fits {c : KbdCall} (h : c.Ok) : c.buffer + c.size ≤ 2 ^ 32 := by
  cases c with
  | read => exact h
  | secureRead => exact h.2.2
  | getch => exact h

/-- A byte that is not in the buffer of a call. -/
def KbdCall.Outside (c : KbdCall) (x : ℕ) : Prop := x < c.buffer ∨ c.buffer + c.size ≤ x

/-! ## Characters -/

section Characters

variable {s : Keyboard} {c : KbdCall} {l : KbdLine}

theorem Holds.append {mem : ℕ → UInt8} {text : List UInt8} (h : Holds mem c text) (hlt : text.length < c.size)
    (b : UInt8) : Holds (Function.update mem (c.buffer + text.length) b) c (text ++ [b]) := by
  refine ⟨?_, fun i b' hi => ?_⟩
  · rw [List.length_append]
    exact hlt
  · rcases Nat.lt_trichotomy i text.length with hi' | rfl | hi'
    · rw [List.getElem?_append_left hi'] at hi
      rw [Function.update_of_ne (by omega)]
      exact h.bytes i b' hi
    · rw [List.getElem?_append_right le_rfl, Nat.sub_self, List.getElem?_cons_zero] at hi
      rw [Function.update_self]
      exact Option.some_inj.1 hi
    · rw [List.getElem?_eq_none (by rw [List.length_append]; exact hi')] at hi
      exact nomatch hi

/-- A byte past the text. -/
theorem Holds.update {mem : ℕ → UInt8} {text : List UInt8} (h : Holds mem c text) {n : ℕ} (hle : text.length ≤ n)
    (b : UInt8) : Holds (Function.update mem (c.buffer + n) b) c text := by
  refine ⟨h.length_le, fun i b' hi => ?_⟩
  have hlt : i < text.length := (List.getElem?_eq_some_iff.1 hi).1
  rw [Function.update_of_ne (by omega)]
  exact h.bytes i b' hi

theorem Holds.set {mem : ℕ → UInt8} {text : List UInt8} (h : Holds mem c text) (n : ℕ) (b : UInt8) :
    Holds (Function.update mem (c.buffer + n) b) c (text.set n b) := by
  refine ⟨?_, fun i b' hi => ?_⟩
  · rw [List.length_set]
    exact h.length_le
  · by_cases hn : n = i
    · subst hn
      rw [List.getElem?_set_self'] at hi
      obtain ⟨_, -, hi⟩ := Option.map_eq_some_iff.1 hi
      rw [Function.update_self]
      exact hi
    · rw [List.getElem?_set_ne hn] at hi
      rw [Function.update_of_ne (by omega)]
      exact h.bytes i b' hi

/-- The end of a string. -/
theorem Holds.terminated {mem : ℕ → UInt8} {text : List UInt8} (h : Holds mem c text) {k : ℕ} (hk : k < c.size) :
    Holds (Function.update mem (c.buffer + k) 0) c (if k = text.length then text ++ [0] else text.set k 0) := by
  split_ifs with heq
  · subst heq
    exact h.append hk 0
  · exact h.set k 0

/-- What changes with a character that is taken. -/
structure Takes (c : KbdCall) (s s' : Keyboard) (l' : KbdLine) : Prop where
  listens : Listens s'.kbdBuf s'.mem c l'
  outside : ∀ x, c.Outside x → s'.mem x = s.mem x

theorem Listens.append (h : Listens s.kbdBuf s.mem c l) (hfit : c.buffer + c.size ≤ 2 ^ 32) (b : UInt8)
    (closed : Bool) : Takes c s (s.append b) { l with text := (l.text ++ [b]).take l.size, closed := closed } := by
  unfold Keyboard.append
  rw [h.read, h.readSize]
  split_ifs with hlt
  · have haddr : add32 s.kbdBuf.charBuf l.text.length = c.buffer + l.text.length := by
      rw [h.charBuf, add32_of_lt (by omega)]
    have htake : (l.text ++ [b]).take l.size = l.text ++ [b] :=
      List.take_of_length_le (by rw [List.length_append, h.size]; exact hlt)
    unfold Keyboard.store
    rw [haddr, htake]
    refine ⟨⟨h.charBuf, h.readSize, ?_, h.size, h.holds.append hlt b⟩, fun x hx => Function.update_of_ne ?_ _ _⟩
    · rw [List.length_append]
      rfl
    · rcases hx with hx | hx <;> omega
  · have hlen : l.text.length = l.size := by
      have hle := h.holds.length_le
      rw [h.size]
      omega
    rw [List.take_append_of_le_length hlen.ge, List.take_of_length_le hlen.le]
    exact ⟨⟨h.charBuf, h.readSize, h.read, h.size, h.holds⟩, fun x _ => rfl⟩

theorem Listens.erase (h : Listens s.kbdBuf s.mem c l) (hfit : c.buffer + c.size ≤ 2 ^ 32) (hsize : c.size ≠ 0) :
    Takes c s s.erase { l with text := l.text.dropLast } := by
  have hle := h.holds.length_le
  have hread : s.erase.kbdBuf.read = l.text.length - 1 := by
    unfold Keyboard.erase Keyboard.store
    rw [h.read]
    split_ifs with h0
    · rfl
    · exact h.read.trans (by omega)
  have hcharBuf : s.erase.kbdBuf.charBuf = c.buffer := by
    unfold Keyboard.erase Keyboard.store
    split_ifs <;> exact h.charBuf
  have hreadSize : s.erase.kbdBuf.readSize = c.size := by
    unfold Keyboard.erase Keyboard.store
    split_ifs <;> exact h.readSize
  have hmem : s.erase.mem = Function.update s.mem (c.buffer + (l.text.length - 1)) 0 := by
    have haddr : add32 c.buffer (l.text.length - 1) = c.buffer + (l.text.length - 1) := add32_of_lt (by omega)
    rw [← haddr, ← hread, ← hcharBuf]
    unfold Keyboard.erase Keyboard.store
    split_ifs <;> rfl
  have hdrop : Holds s.mem c l.text.dropLast := by
    refine ⟨?_, fun i b hi => h.holds.bytes i b ?_⟩
    · rw [List.length_dropLast]
      omega
    · rw [List.getElem?_dropLast] at hi
      split_ifs at hi
      exact hi
  refine ⟨⟨hcharBuf, hreadSize, hread.trans (List.length_dropLast).symm, h.size, ?_⟩, fun x hx => ?_⟩
  · rw [hmem]
    exact hdrop.update List.length_dropLast.le 0
  · rw [hmem]
    refine Function.update_of_ne ?_ _ _
    rcases hx with hx | hx <;> omega

theorem append_type (s : Keyboard) (b : UInt8) : (s.append b).kbdBuf.type = s.kbdBuf.type := by
  unfold Keyboard.append
  split_ifs <;> rfl

theorem erase_type (s : Keyboard) : s.erase.kbdBuf.type = s.kbdBuf.type := by
  unfold Keyboard.erase Keyboard.store
  split_ifs <;> rfl

theorem Takes.endRead {s' : Keyboard} (h : Takes c s s' l) : Takes c s s'.endRead l :=
  ⟨⟨h.listens.charBuf, h.listens.readSize, h.listens.read, h.listens.size, h.listens.holds⟩, h.outside⟩

/-- With `type` 0 no character is taken. -/
theorem fillBuffer_idle (h : s.kbdBuf.type = 0) (b : UInt8) : s.fillBuffer b = s := by
  unfold Keyboard.fillBuffer
  rw [h, if_neg (by decide), if_neg (by decide)]

theorem bufType_some (l : KbdLine) :
    KbdLine.bufType (some l) = if l.closed then 0 else if l.single then 2 else 1 := rfl

/-- While a call listens, a character does to its buffer what it does to the line. -/
theorem Listens.fillBuffer (h : Listens s.kbdBuf s.mem c l) (hfit : c.buffer + c.size ≤ 2 ^ 32)
    (hsize : c.size ≠ 0) (htype : s.kbdBuf.type = KbdLine.bufType (some l)) (b : UInt8) :
    Takes c s (s.fillBuffer b) (l.type b) ∧ (s.fillBuffer b).kbdBuf.type = KbdLine.bufType (some (l.type b)) := by
  rw [bufType_some] at htype
  unfold KbdLine.type
  by_cases hclosed : l.closed
  · rw [if_pos hclosed] at htype
    rw [fillBuffer_idle htype, if_pos hclosed]
    refine ⟨⟨h, fun x _ => rfl⟩, ?_⟩
    rw [bufType_some, htype, if_pos hclosed]
  · rw [if_neg hclosed] at htype ⊢
    by_cases hsingle : l.single
    · rw [if_pos hsingle] at htype
      unfold Keyboard.fillBuffer
      rw [htype, if_neg (by decide), if_pos rfl, if_pos (.inl hsingle)]
      exact ⟨(h.append hfit b true).endRead, rfl⟩
    · rw [if_neg hsingle] at htype
      unfold Keyboard.fillBuffer
      rw [if_pos htype]
      by_cases hreturn : b = keyReturn
      · rw [if_pos hreturn, if_pos (.inr hreturn)]
        exact ⟨(h.append hfit b true).endRead, rfl⟩
      · rw [if_neg hreturn, if_neg (not_or.2 ⟨hsingle, hreturn⟩)]
        by_cases hback : b = keyBackspace
        · rw [if_pos hback, if_pos hback]
          refine ⟨h.erase hfit hsize, (erase_type s).trans (htype.trans ?_)⟩
          rw [bufType_some, if_neg hclosed, if_neg hsingle]
        · rw [if_neg hback, if_neg hback]
          refine ⟨h.append hfit b l.closed, (append_type s b).trans (htype.trans ?_)⟩
          rw [bufType_some, if_neg hclosed, if_neg hsingle]

/-- What a character leaves alone. -/
theorem fillBuffer_kept (s : Keyboard) (b : UInt8) : (s.fillBuffer b).secureInput = s.secureInput
    ∧ (s.fillBuffer b).displayKeyboard = s.displayKeyboard ∧ (s.fillBuffer b).keyboardFlags = s.keyboardFlags
    ∧ (s.fillBuffer b).console = s.console := by
  unfold Keyboard.fillBuffer Keyboard.endRead Keyboard.append Keyboard.erase Keyboard.store
  split_ifs <;> exact ⟨rfl, rfl, rfl, rfl⟩

theorem display_eq (s : Keyboard) (b : UInt8) : s.display b = { s with
    console := if s.displayKeyboard then
        s.console ++ [if s.secureInput ∧ b ≠ keyReturn ∧ b ≠ keyBackspace then 42 else b]
      else s.console } := by
  unfold Keyboard.display
  split_ifs <;> rfl

end Characters

/-! ## The events -/

/-- Keys are taken for the call that listens. -/
theorem Progress.listens {buf : KbdBuffer} {mem : ℕ → UInt8} {line : Option KbdLine}
    {reader : Option KbdReader} (h : Progress buf mem line reader) (htype : KbdLine.bufType line ≠ 0)
    (hbuf : buf.charBuf ≠ 0) : ∃ r l, reader = some r ∧ line = some l ∧ (r.stage = .take ∨ r.stage = .clearCharBuf)
      ∧ Listens buf mem r.call l := by
  have hline : line ≠ none := fun hnone => htype (hnone ▸ rfl)
  cases reader with
  | none => exact absurd h hline
  | some r =>
    obtain ⟨c, stage, n⟩ := r
    cases stage with
    | charBuf => exact absurd h hline
    | readSize | read | type => exact absurd h.1 hline
    | take =>
      obtain ⟨l, hl, h⟩ := h
      exact ⟨_, l, rfl, hl, .inl rfl, h⟩
    | clearCharBuf =>
      obtain ⟨l, hl, h⟩ := h
      exact ⟨_, l, rfl, hl, .inr rfl, h⟩
    | clearReadSize | clearRead | clearType =>
      obtain ⟨l, -, h0, -⟩ := h
      exact absurd h0 hbuf
    | terminate =>
      obtain ⟨l, hl, hclosed, -⟩ := h
      refine absurd ?_ htype
      rw [hl]
      exact if_pos hclosed

/-- A character changes nothing in a line that takes none. -/
theorem type_of_bufType_zero {line : Option KbdLine} (h : KbdLine.bufType line = 0) (b : UInt8) :
    line.map (KbdLine.type · b) = line := by
  cases line with
  | none => rfl
  | some l =>
    have hclosed : l.closed = true := by
      by_contra hc
      rw [bufType_some, if_neg hc] at h
      split_ifs at h
    exact congrArg some (if_pos hclosed)

theorem toInt8_toInt (data : UInt8) :
    data.toInt8.toInt = if data.toNat < 128 then (data.toNat : ℤ) else data.toNat - 256 := by
  refine (BitVec.toInt_eq_toNat_cond data.toBitVec).trans ?_
  change (if 2 * data.toNat < 2 ^ 8 then (data.toNat : ℤ) else data.toNat - 256) = _
  exact if_congr (by omega) rfl rfl

/-- Of the mask only bit 0 is one of the status. -/
theorem comm_iff (comm : UInt8) : comm.toUInt32 &&& 0x100001 = 1 ↔ comm.toNat % 2 = 1 := by
  have hand : ∀ n < 256, n &&& 0x100001 = 1 ↔ n % 2 = 1 := by decide +kernel
  rw [← UInt32.toNat_inj, UInt32.toNat_and, UInt8.toNat_toUInt32]
  exact hand _ comm.toNat_lt

theorem shiftFlags_left : ∀ l r : Bool, shiftFlags l r ||| kbdLshift = shiftFlags true r
    ∧ shiftFlags l r &&& ~~~kbdLshift = shiftFlags false r := by decide

theorem shiftFlags_right : ∀ l r : Bool, shiftFlags l r ||| kbdRshift = shiftFlags l true
    ∧ shiftFlags l r &&& ~~~kbdRshift = shiftFlags l false := by decide

theorem shiftFlags_shifted : ∀ l r : Bool,
    shiftFlags l r &&& kbdLshift ||| shiftFlags l r &&& kbdRshift ≠ 0 ↔ (l || r) = true := by decide

namespace KbdRefine

variable {mem₀ : ℕ → UInt8} {s : KbdSystem} {a : KbdSpec}

/-- A character is taken by the line that is read, and shown. -/
theorem typed (h : KbdRefine mem₀ s a) (hok : s.kbd.kbdBuf.type ≠ 0 → s.kbd.kbdBuf.charBuf ≠ 0) (b : UInt8) :
    KbdRefine mem₀ { s with kbd := (s.kbd.fillBuffer b).display b } (a.typed b) := by
  obtain ⟨hsecure, hdisplay, hflags, hconsole⟩ := fillBuffer_kept s.kbd b
  have hshown : (if (s.kbd.fillBuffer b).displayKeyboard then (s.kbd.fillBuffer b).console ++
        [if (s.kbd.fillBuffer b).secureInput ∧ b ≠ keyReturn ∧ b ≠ keyBackspace then 42 else b]
      else (s.kbd.fillBuffer b).console) = (a.typed b).console := by
    rw [hsecure, hdisplay, hconsole, h.secure, h.display, h.console]
    rfl
  rw [display_eq]
  have hmain : (s.kbd.fillBuffer b).kbdBuf.type = KbdLine.bufType (a.typed b).line
      ∧ Progress (s.kbd.fillBuffer b).kbdBuf (s.kbd.fillBuffer b).mem (a.typed b).line a.reader
      ∧ ∀ x, (∀ c ∈ a.calls, c.Outside x) → (s.kbd.fillBuffer b).mem x = mem₀ x := by
    by_cases hidle : s.kbd.kbdBuf.type = 0
    · have hline : (a.typed b).line = a.line := type_of_bufType_zero (h.type.symm.trans hidle) b
      rw [fillBuffer_idle hidle, hline]
      exact ⟨h.type, h.progress, h.frame⟩
    · obtain ⟨r, l, hr, hl, hstage, hlistens⟩ := h.progress.listens (fun h0 => hidle (h.type.trans h0)) (hok hidle)
      obtain ⟨hcall, -, hsize, hmem⟩ := h.call r hr
      obtain ⟨htakes, htype⟩ := hlistens.fillBuffer hcall.fits hsize (h.type.trans (congrArg _ hl)) b
      have hline : (a.typed b).line = some (l.type b) := congrArg (Option.map (KbdLine.type · b)) hl
      rw [hline, hr]
      refine ⟨htype, ?_, fun x hx => (htakes.outside x (hx _ hmem)).trans (h.frame x hx)⟩
      obtain ⟨c, stage, n⟩ := r
      rcases hstage with rfl | rfl <;> exact ⟨_, rfl, htakes.listens⟩
  exact ⟨hsecure.trans h.secure, hdisplay.trans h.display, hshown, hflags.trans h.flags, hmain.1, h.reader,
    h.call, hmain.2.1, h.returned, hmain.2.2⟩

theorem setFlags (h : KbdRefine mem₀ s a) {f : UInt32} {left right : Bool}
    (hf : f = shiftFlags left right) :
    KbdRefine mem₀ { s with kbd := { s.kbd with keyboardFlags := f } } { a with left := left, right := right } :=
  ⟨h.secure, h.display, h.console, hf, h.type, h.reader, h.call, h.progress, h.returned, h.frame⟩

theorem press (h : KbdRefine mem₀ s a) {k : ℕ} (h0 : 0 < k)
    (hok : HasCharacter k → s.kbd.kbdBuf.type ≠ 0 → s.kbd.kbdBuf.charBuf ≠ 0) :
    KbdRefine mem₀ { s with kbd := s.kbd.manageKeycode k } (a.press k) := by
  unfold Keyboard.manageKeycode KbdSpec.press
  rw [if_pos (Int.natCast_pos.2 h0), Int.toNat_natCast]
  by_cases hleft : regularKey k = keyLshift
  · rw [if_pos hleft, if_pos hleft]
    exact h.setFlags (h.flags ▸ (shiftFlags_left _ _).1)
  · rw [if_neg hleft, if_neg hleft]
    by_cases hright : regularKey k = keyRshift
    · rw [if_pos hright, if_pos hright]
      exact h.setFlags (h.flags ▸ (shiftFlags_right _ _).1)
    · rw [if_neg hright, if_neg hright]
      unfold Keyboard.pressCharacter
      by_cases hchar : regularKey k = 0 ∧ shiftedKey k = 0
      · rw [if_pos hchar, if_neg fun hor => hor.elim (· hchar.1) (· hchar.2)]
        exact h
      · have hor : regularKey k ≠ 0 ∨ shiftedKey k ≠ 0 := not_and_or.1 hchar
        rw [if_neg hchar, if_pos hor, h.flags]
        dsimp only
        rw [if_congr (shiftFlags_shifted _ _) rfl rfl]
        exact h.typed (hok ⟨hleft, hright, hor⟩) _

theorem release (h : KbdRefine mem₀ s a) {k : ℕ} (hk : k ≤ 128) :
    KbdRefine mem₀ { s with kbd := s.kbd.manageKeycode (k - 128) } (a.release k) := by
  have hnew : (128 + ((k : ℤ) - 128)).toNat = k := by omega
  unfold Keyboard.manageKeycode KbdSpec.release
  rw [if_neg (by omega)]
  dsimp only
  rw [hnew]
  by_cases hleft : regularKey k = keyLshift
  · rw [if_pos hleft, if_pos hleft]
    exact h.setFlags (h.flags ▸ (shiftFlags_left _ _).2)
  · rw [if_neg hleft, if_neg hleft]
    by_cases hright : regularKey k = keyRshift
    · rw [if_pos hright, if_pos hright]
      exact h.setFlags (h.flags ▸ (shiftFlags_right _ _).2)
    · rw [if_neg hright, if_neg hright]
      exact h

/-- The interrupt, also for code 0, which is taken for a released key. -/
theorem key (h : KbdRefine mem₀ s a) {comm data : UInt8} (hok : s.Ok (.key comm data)) :
    KbdRefine mem₀ { s with kbd := s.kbd.keyboardInterruptHandler comm data } (a.key comm data) := by
  unfold Keyboard.keyboardInterruptHandler KbdSpec.key
  by_cases hcomm : comm.toNat % 2 = 1
  · rw [if_pos ((comm_iff comm).2 hcomm), if_pos hcomm, toInt8_toInt]
    by_cases hdata : data.toNat < 128
    · rw [if_pos hdata, if_pos hdata]
      rcases Nat.eq_zero_or_pos data.toNat with h0 | hpos
      · rw [h0]
        exact h.release (k := 128) le_rfl
      · exact h.press hpos fun hchar => hok ⟨hcomm, hchar⟩
    · have hlt : data.toNat < 256 := data.toNat_lt
      have hcode : (data.toNat : ℤ) - 256 = ((data.toNat - 128 : ℕ) : ℤ) - 128 := by omega
      rw [if_neg hdata, if_neg hdata, hcode]
      exact h.release (by omega)
  · rw [if_neg (mt (comm_iff comm).1 hcomm), if_neg hcomm]
    exact h

/-- A call starts, or returns at once. -/
theorem calls (h : KbdRefine mem₀ s a) {c : KbdCall} (hok : c.Ok) (hnone : a.reader = none) :
    KbdRefine mem₀ (s.call c) (a.call c) := by
  have hframe : ∀ x, (∀ c' ∈ a.calls ++ [c], c'.Outside x) → s.kbd.mem x = mem₀ x := fun x hx =>
    h.frame x fun c' hc' => hx c' (List.mem_append_left _ hc')
  have hline : a.line = none := by
    have hprogress := h.progress
    rw [hnone] at hprogress
    exact hprogress
  unfold KbdSystem.call KbdSpec.call
  by_cases hnull : c.buffer = 0 ∨ c.size = 0
  · rw [if_pos hnull, if_pos hnull]
    have hreturn : KbdRefine mem₀ (s.returns c 0)
        { a with calls := a.calls ++ [c], returned := a.returned ++ [(c, 0, [])] } :=
      ⟨h.secure, h.display, h.console, h.flags, h.type, hnone.symm, fun r hr => (nomatch hnone.symm.trans hr),
        h.progress, List.rel_append h.returned (.cons ⟨rfl, rfl, Nat.zero_le _, nofun⟩ .nil), hframe⟩
    cases c with
    | read => exact hreturn
    | secureRead => exact absurd hnull (not_or.2 ⟨hok.1, hok.2.1⟩)
    | getch => exact hreturn
  · rw [if_neg hnull, if_neg hnull]
    refine ⟨h.secure, h.display, h.console, h.flags, h.type, rfl, fun r hr => ?_, hline, h.returned, hframe⟩
    cases hr
    exact ⟨hok, fun h0 => hnull (.inl h0), fun h0 => hnull (.inr h0), List.mem_append_right _ List.mem_cons_self⟩

section Run

variable {r r' : KbdReader} {buf : KbdBuffer} {mem : ℕ → UInt8} {line : Option KbdLine}

/-- A statement that is not the last. -/
theorem advance (h : KbdRefine mem₀ s a) (hr : a.reader = some r) (hcall : r'.call = r.call)
    (htype : buf.type = KbdLine.bufType line) (hprogress : Progress buf mem line (some r'))
    (hmem : ∀ x, r.call.Outside x → mem x = s.kbd.mem x) :
    KbdRefine mem₀ { s with kbd := { s.kbd with kbdBuf := buf, mem := mem }, reader := some r' }
      { a with line := line, reader := some r' } := by
  have hc := h.call r hr
  refine ⟨h.secure, h.display, h.console, h.flags, htype, rfl, fun r₁ hr₁ => ?_, hprogress, h.returned,
    fun x hx => (hmem x (hx _ hc.2.2.2)).trans (h.frame x hx)⟩
  cases hr₁
  rw [hcall]
  exact hc

/-- The last statement. -/
theorem finish (h : KbdRefine mem₀ s a) (hr : a.reader = some r) {text : List UInt8} (htype : buf.type = 0)
    (hholds : Holds mem r.call text) (hmem : ∀ x, r.call.Outside x → mem x = s.kbd.mem x) :
    KbdRefine mem₀
      { s with
        kbd := { s.kbd with kbdBuf := buf, mem := mem }
        reader := none
        returned := s.returned ++ [⟨r.call, r.result, mem⟩] }
      { a with line := none, reader := none, returned := a.returned ++ [(r.call, r.result, text)] } := by
  have hc := h.call r hr
  exact ⟨h.secure, h.display, h.console, h.flags, htype, rfl, nofun, rfl,
    List.rel_append h.returned (.cons ⟨rfl, rfl, hholds⟩ .nil), fun x hx => (hmem x (hx _ hc.2.2.2)).trans (h.frame x hx)⟩

end Run

theorem bufType_call (c : KbdCall) :
    c.type = KbdLine.bufType (some ⟨c.size, c.type = 2, [], false⟩) := by
  cases c <;> rfl

/-- The string is ended inside the buffer. -/
theorem stringEnd_lt {r : KbdReader} (hok : r.call.Ok) (hbuffer : r.call.buffer ≠ 0) (hsize : r.call.size ≠ 0) :
    r.stringEnd < r.call.size := by
  have hfit := hok.fits
  have hsub : sub32 r.call.size 1 = r.call.size - 1 := sub32_of_le (by omega) (by omega)
  unfold KbdReader.stringEnd
  rw [hsub]
  split_ifs <;> omega

/-- `keyboard_secure_read` ends the string and returns. -/
theorem terminate (h : KbdRefine mem₀ s a) {r : KbdReader} (hr : a.reader = some r) (hstage : r.stage = .terminate) :
    KbdRefine mem₀ (s.run r) (a.run r) := by
  have hprogress := h.progress
  rw [hr] at hprogress
  unfold Progress at hprogress
  dsimp only at hprogress
  rw [hstage] at hprogress
  obtain ⟨l, hl, hclosed, hholds⟩ := hprogress
  obtain ⟨hok, hbuffer, hsize, -⟩ := h.call r hr
  have hfit := hok.fits
  obtain ⟨k, hk⟩ : ∃ k, k = r.stringEnd := ⟨_, rfl⟩
  have hend : k < r.call.size := hk ▸ stringEnd_lt hok hbuffer hsize
  have hnext (n : ℕ) : r.next n = none := by
    unfold KbdReader.next
    rw [hstage]
  have hrun : s.run r = { s with
      kbd := { s.kbd with mem := Function.update s.kbd.mem (r.call.buffer + k) 0 }
      reader := none
      returned := s.returned ++ [⟨r.call, r.result, Function.update s.kbd.mem (r.call.buffer + k) 0⟩] } := by
    unfold KbdSystem.run Keyboard.exec
    rw [hnext, hstage, ← hk, add32_of_lt (show r.call.buffer + k < 2 ^ 32 by omega)]
    rfl
  have hspec : a.run r = { a with
      line := none
      reader := none
      returned := a.returned ++ [(r.call, r.result, if k = l.text.length then l.text ++ [0] else l.text.set k 0)] } := by
    unfold KbdSpec.run KbdSpec.lineAfter
    rw [hnext, hstage, hl, ← hk]
    rfl
  rw [hrun, hspec]
  refine h.finish hr ?_ (hholds.terminated hend) fun x hx => Function.update_of_ne ?_ _ _
  · rw [h.type, hl, bufType_some, if_pos hclosed]
  · rcases hx with hx | hx <;> omega

/-- A statement of the call. -/
theorem run (h : KbdRefine mem₀ s a) {r : KbdReader} (hr : a.reader = some r) :
    KbdRefine mem₀ (s.run r) (a.run r) := by
  have hprogress := h.progress
  have htype := h.type
  obtain ⟨hok, hbuffer, hsize, -⟩ := h.call r hr
  rw [hr] at hprogress
  obtain ⟨c, stage, n⟩ := r
  have hsame : ∀ x, c.Outside x → s.kbd.mem x = s.kbd.mem x := fun _ _ => rfl
  cases stage with
  | charBuf => exact h.advance hr rfl htype ⟨hprogress, rfl⟩ hsame
  | readSize => exact h.advance hr rfl htype ⟨hprogress.1, hprogress.2, rfl⟩ hsame
  | read => exact h.advance hr rfl htype ⟨hprogress.1, hprogress.2.1, hprogress.2.2, rfl⟩ hsame
  | type =>
    obtain ⟨-, hbuf, hsz, hread⟩ := hprogress
    have hlistens : Listens { s.kbd.kbdBuf with type := c.type } s.kbd.mem c ⟨c.size, c.type = 2, [], false⟩ :=
      ⟨hbuf, hsz, hread, rfl, Nat.zero_le _, nofun⟩
    cases c with
    | read buffer size => exact h.advance hr rfl (bufType_call (.read buffer size)) ⟨_, rfl, hlistens⟩ hsame
    | secureRead buffer size => exact h.advance hr rfl (bufType_call (.secureRead buffer size)) ⟨_, rfl, hlistens⟩ hsame
    | getch character => exact h.advance hr rfl (bufType_call (.getch character)) ⟨_, rfl, hlistens⟩ hsame
  | take =>
    obtain ⟨l, hl, hlistens⟩ := hprogress
    have htext : a.text.length = s.kbd.kbdBuf.read := by
      rw [hlistens.read]
      unfold KbdSpec.text
      rw [hl]
      rfl
    unfold KbdSpec.run
    rw [htext]
    exact h.advance hr rfl htype ⟨l, hl, hlistens⟩ hsame
  | clearCharBuf =>
    obtain ⟨l, hl, hlistens⟩ := hprogress
    exact h.advance hr rfl htype ⟨l, hl, rfl, hlistens.holds⟩ hsame
  | clearReadSize | clearRead =>
    obtain ⟨l, hl, h0, hholds⟩ := hprogress
    exact h.advance hr rfl htype ⟨l, hl, h0, hholds⟩ hsame
  | clearType =>
    obtain ⟨l, hl, -, hholds⟩ := hprogress
    have hline : a.lineAfter ⟨c, .clearType, n⟩ = some { l with closed := true } := by
      unfold KbdSpec.lineAfter
      rw [hl]
      rfl
    unfold KbdSpec.run
    rw [hline]
    cases c with
    | read => exact h.finish hr rfl hholds hsame
    | secureRead => exact h.advance hr rfl rfl ⟨_, rfl, rfl, hholds⟩ hsame
    | getch => exact h.finish hr rfl hholds hsame
  | terminate => exact h.terminate hr rfl

theorem step (h : KbdRefine mem₀ s a) {e : KbdEv} {s' : KbdSystem} (hok : s.Ok e) (hstep : s.step e = some s') :
    ∃ a', a.step e = some a' ∧ KbdRefine mem₀ s' a' := by
  cases e with
  | call c =>
    unfold KbdSystem.step at hstep
    dsimp only at hstep
    split_ifs at hstep with hnone
    cases hstep
    have hnone' : a.reader = none := h.reader.symm.trans hnone
    exact ⟨_, if_pos hnone', h.calls hok hnone'⟩
  | run =>
    obtain ⟨r, hr, rfl⟩ := Option.map_eq_some_iff.1 hstep
    have hr' : a.reader = some r := h.reader.symm.trans hr
    exact ⟨_, congrArg (Option.map a.run) hr', h.run hr'⟩
  | key comm data =>
    cases hstep
    exact ⟨_, rfl, h.key hok⟩
  | secure on =>
    cases hstep
    exact ⟨_, rfl, rfl, h.display, h.console, h.flags, h.type, h.reader, h.call, h.progress, h.returned, h.frame⟩
  | display on =>
    cases hstep
    exact ⟨_, rfl, h.secure, rfl, h.console, h.flags, h.type, h.reader, h.call, h.progress, h.returned, h.frame⟩

end KbdRefine

theorem boot_kbdRefine (mem : ℕ → UInt8) : KbdRefine mem (KbdSystem.boot mem) KbdSpec.boot :=
  ⟨rfl, rfl, rfl, rfl, rfl, rfl, nofun, rfl, .nil, fun _ _ => rfl⟩

/-- Every run of the driver, with keys between any two statements of the calls, is one of the line that is
edited. -/
theorem keyboard_refines (mem : ℕ → UInt8) {es : List KbdEv} {s : KbdSystem}
    (hrun : runEvents (guarded KbdSystem.step KbdSystem.Ok) (KbdSystem.boot mem) es = some s) :
    ∃ a, runEvents KbdSpec.step KbdSpec.boot es = some a ∧ KbdRefine mem s a :=
  runEvents_simulates (fun _ _ _ _ hR hok hstep => hR.step hok hstep) (boot_kbdRefine mem) hrun

/-- Four characters are asked for; shift and `q`, `w`, backspace and `e` come while the call takes keys. -/
def typedWord : List KbdEv :=
  [.call (.read 100 4), .run, .run, .run, .run, .key 1 42, .key 1 16, .key 1 170, .key 1 17, .key 1 14, .key 1 18,
    .run, .run, .run, .run, .run]

theorem keyboard_refines_word : ∃ s, runEvents (guarded KbdSystem.step KbdSystem.Ok)
      (KbdSystem.boot fun _ => 7) typedWord = some s
    ∧ s.returned.map (fun r => (r.result, r.mem 100, r.mem 101, r.mem 102)) = [(2, 81, 101, 7)]
    ∧ ∃ a, runEvents KbdSpec.step KbdSpec.boot typedWord = some a ∧ KbdRefine (fun _ => 7) s a := by
  have hreturned : (runEvents (guarded KbdSystem.step KbdSystem.Ok) (KbdSystem.boot fun _ => 7) typedWord).map
      (fun s => s.returned.map fun r => (r.result, r.mem 100, r.mem 101, r.mem 102)) = some [(2, 81, 101, 7)] := by
    decide +kernel
  obtain ⟨s, hs, hl⟩ := Option.map_eq_some_iff.1 hreturned
  exact ⟨s, hs, hl, keyboard_refines _ hs⟩

end RTLKIM
