import EmbeddedLinux.Lib.Buffer
import EmbeddedLinux.Lib.CString
import EmbeddedLinux.Lib.Piecewise
import EmbeddedLinux.Lib.Resubmit

/-!
# The character device

`my_read` gives a greeting from the offset of the open file on, and `my_write` prints what it is
given to the kernel log, at most 255 bytes in one call.  Both return short counts, so the programs
that read all of the greeting or write a long text make many calls.

Reads of any lengths give the greeting piece by piece, also when some of them fail
(`reassembles`), and a program that writes all of a text has it in the log once
(`logged_once`).
-/

namespace EmbeddedLinux.MyDevice

open CString Buffer Piecewise Resubmit

/-- `-EFAULT` -/
def efault : Int := -14

def greet : List UInt8 := text "Hello from mydevice!\n"

/-- `sizeof(greet) - 1` -/
def msgLen : UInt64 := UInt64.ofNat greet.length

/-- `my_read` at the offset `*ppos`.  The offset is signed, and the other lengths are not. -/
def myRead (c : Call) (ppos : Int64) : Piece UInt8 × Int64 :=
  -- the comparison is one of unsigned numbers
  if msgLen ≤ ppos.toUInt64 then (⟨0, []⟩, ppos)
  else
    let remaining := msgLen - ppos.toUInt64
    let toCopy := if c.len < remaining then c.len else remaining
    let out := copyToUser c.room ((greet.drop ppos.toInt.toNat).take toCopy.toNat)
    if out.2 ≠ 0 then (⟨efault, out.1⟩, ppos)
    else (⟨toCopy.toInt64.toInt, out.1⟩, (ppos.toUInt64 + toCopy).toInt64)

/-- What calls of any lengths on a newly opened file give, and what they leave for further
calls. -/
structure Reassembles (calls : List Call) : Prop where
  bound : 0 ≤ (reads myRead calls 0).2.toInt ∧ (reads myRead calls 0).2.toInt ≤ greet.length
  front : returned (reads myRead calls 0).1 = greet.take (reads myRead calls 0).2.toInt.toNat
  failed : ∀ c, (myRead c (reads myRead calls 0).2).1.ret < 0 →
    (myRead c (reads myRead calls 0).2).2 = (reads myRead calls 0).2
  zero : ∀ c, (myRead c (reads myRead calls 0).2).1.ret = 0 ↔
    c.len = 0 ∨ returned (reads myRead calls 0).1 = greet
  /-- with room for its bytes a call succeeds, and returns the smaller of its length and what is
  left -/
  served : ∀ c : Call,
    min c.size (greet.length - (reads myRead calls 0).2.toInt.toNat) ≤ c.room →
    (myRead c (reads myRead calls 0).2).1.ret =
      (min c.size (greet.length - (reads myRead calls 0).2.toInt.toNat) : Nat)
  ends : ∀ more, (∀ c ∈ more, 0 < c.len) →
    (∀ p ∈ (reads myRead more (reads myRead calls 0).2).1, 0 ≤ p.ret) →
    greet.length ≤ (reads myRead calls 0).2.toInt + more.length →
    (reads myRead more (reads myRead calls 0).2).2.toInt = greet.length

/-! ### One read -/

variable {c : Call} {ppos : Int64}

theorem msgLen_toNat : msgLen.toNat = greet.length := by decide

theorem length_greet : greet.length = 21 := by decide

/-- Small numbers are the same with and without a sign. -/
theorem toInt_of_lt {x : Int64} (h : x.toUInt64.toNat < 9223372036854775808) :
    x.toInt = x.toUInt64.toNat := by
  show x.toBitVec.toInt = _
  rw [BitVec.toInt_eq_toNat_of_lt]
  · rfl
  · have : x.toBitVec.toNat = x.toUInt64.toNat := rfl
    omega

/-- At the end of the greeting. -/
theorem myRead_end (h : ppos.toUInt64.toNat = greet.length) : myRead c ppos = (⟨0, []⟩, ppos) := by
  apply if_pos
  rw [UInt64.le_iff_toNat_le, msgLen_toNat]
  omega

/-- How much a call copies. -/
theorem toCopy_toNat (h : ppos.toUInt64.toNat < greet.length) :
    (if c.len < msgLen - ppos.toUInt64 then c.len else msgLen - ppos.toUInt64).toNat =
      min c.size (greet.length - ppos.toUInt64.toNat) := by
  have hsub : (msgLen - ppos.toUInt64).toNat = greet.length - ppos.toUInt64.toNat := by
    rw [UInt64.toNat_sub_of_le, msgLen_toNat]
    rw [UInt64.le_iff_toNat_le, msgLen_toNat]
    omega
  split
  · rename_i hlt
    rw [UInt64.lt_iff_toNat_lt, hsub] at hlt
    exact (Nat.min_eq_left (Nat.le_of_lt hlt)).symm
  · rename_i hle
    rw [UInt64.lt_iff_toNat_lt, hsub] at hle
    rw [hsub]
    exact (Nat.min_eq_right (Nat.le_of_not_lt hle)).symm

/-- A call before the end that copies `n` bytes. -/
theorem serves_copy {n : UInt64} (h : ppos.toUInt64.toNat < greet.length)
    (hn : n.toNat = min c.size (greet.length - ppos.toUInt64.toNat)) :
    let out := copyToUser c.room ((greet.drop ppos.toInt.toNat).take n.toNat)
    let r : Piece UInt8 × Int64 :=
      if out.2 ≠ 0 then (⟨efault, out.1⟩, ppos)
      else (⟨n.toInt64.toInt, out.1⟩, (ppos.toUInt64 + n).toInt64)
    Serves greet c.size ppos.toUInt64.toNat r.1 r.2.toUInt64.toNat ∧
      (n.toNat ≤ c.room → r.1.ret = n.toNat) := by
  have hgreet := length_greet
  have hpos : ppos.toInt.toNat = ppos.toUInt64.toNat := by
    rw [toInt_of_lt (by omega), Int.toNat_natCast]
  have hlen : ((greet.drop ppos.toInt.toNat).take n.toNat).length = n.toNat := by
    rw [hpos, List.length_take, List.length_drop]
    omega
  simp only
  by_cases hroom : n.toNat ≤ c.room
  · rw [copyToUser_ok (by rw [hlen]; exact hroom), if_neg (not_not.2 rfl)]
    have hret : n.toInt64.toInt = n.toNat :=
      toInt_of_lt (show n.toNat < 9223372036854775808 by omega)
    have hoffset : (ppos.toUInt64 + n).toNat = ppos.toUInt64.toNat + n.toNat := by
      rw [UInt64.toNat_add]
      omega
    have hcopied : (greet.drop ppos.toInt.toNat).take n.toNat =
        (greet.drop ppos.toUInt64.toNat).take c.size := by
      rw [hpos, List.take_eq_take_iff, List.length_drop]
      omega
    have hserved : Serves greet c.size ppos.toUInt64.toNat
        ⟨n.toInt64.toInt, (greet.drop ppos.toInt.toNat).take n.toNat⟩
        (ppos.toUInt64.toNat + ((greet.drop ppos.toInt.toNat).take n.toNat).length) :=
      .served hcopied (by rw [hret, hlen])
    rw [hlen, ← hoffset] at hserved
    exact ⟨hserved, fun _ => hret⟩
  · rw [if_pos (copyToUser_fault (by rw [hlen]; omega))]
    refine ⟨.failed (by omega) h (show efault < 0 by decide) ?_, fun hle => absurd hle hroom⟩
    rw [copyToUser, List.length_take, hlen]
    omega

/-- **A call does what it should do at its offset**, and fails only without room. -/
theorem myRead_spec (c : Call) (h : ppos.toUInt64.toNat ≤ greet.length) :
    Serves greet c.size ppos.toUInt64.toNat (myRead c ppos).1
      (myRead c ppos).2.toUInt64.toNat ∧
      (min c.size (greet.length - ppos.toUInt64.toNat) ≤ c.room →
        (myRead c ppos).1.ret = (min c.size (greet.length - ppos.toUInt64.toNat) : Nat)) := by
  by_cases hend : ppos.toUInt64.toNat = greet.length
  · rw [myRead_end hend, hend, Nat.sub_self, Nat.min_zero]
    refine ⟨.served ?_ rfl, fun _ => rfl⟩
    rw [List.drop_length, List.take_nil]
  · have hlt : ppos.toUInt64.toNat < greet.length := by omega
    have hbefore : ¬ msgLen ≤ ppos.toUInt64 := by
      rw [UInt64.le_iff_toNat_le, msgLen_toNat]
      omega
    rw [myRead, if_neg hbefore, ← toCopy_toNat hlt]
    exact serves_copy hlt (toCopy_toNat hlt)

theorem myRead_serves (c : Call) (h : ppos.toUInt64.toNat ≤ greet.length) :
    Serves greet c.size ppos.toUInt64.toNat (myRead c ppos).1
      (myRead c ppos).2.toUInt64.toNat :=
  (myRead_spec c h).1

/-! ### All reads -/

/-- The step of `reads_serves`. -/
theorem myRead_step (c : Call) (s : Int64) (_ : True) (h : s.toUInt64.toNat ≤ greet.length) :
    (myRead c s).2.toUInt64.toNat ≤ greet.length ∧
      Serves greet c.size s.toUInt64.toNat (myRead c s).1 (myRead c s).2.toUInt64.toNat :=
  ⟨((myRead_serves c h).offset h).2, myRead_serves c h⟩

/-- **The reads give the greeting piece by piece.** -/
theorem reassembles (calls : List Call) : Reassembles calls := by
  have hgreet := length_greet
  have hzero : (0 : Int64).toUInt64.toNat = 0 := rfl
  have hopen : (0 : Int64).toUInt64.toNat ≤ greet.length := by omega
  obtain ⟨hle, -, -, hfront⟩ :=
    reads_serves myRead_step (fun c (_ : c ∈ calls) => trivial) hopen hopen
  rw [hzero, List.take_zero, List.nil_append] at hfront
  have hint := toInt_of_lt (x := (reads myRead calls 0).2) (by omega)
  refine ⟨by omega, ?_, fun c hret => ?_, fun c => ?_, fun c => ?_,
    fun more hmore hret hlong => ?_⟩
  · rw [hfront, hint, Int.toNat_natCast]
  · have hsame := (myRead_serves c hle).offset_of_neg hret
    rw [UInt64.toNat_inj] at hsame
    exact congrArg UInt64.toInt64 hsame
  · rw [(myRead_serves c hle).ret_eq_zero hle, hfront, List.take_eq_self_iff]
    exact or_congr (UInt64.toNat_inj (b := 0)) ⟨fun h => by omega, fun h => by omega⟩
  · rw [hint, Int.toNat_natCast]
    exact (myRead_spec c hle).2
  · have hpositive : ∀ c ∈ more, True ∧ 0 < c.size :=
      fun c hc => ⟨trivial, UInt64.lt_iff_toNat_lt.1 (hmore c hc)⟩
    have hprogress := reads_progress myRead_step hpositive hle hle hret
    obtain ⟨hle', -⟩ := reads_serves myRead_step (fun c (_ : c ∈ more) => trivial) hle hle
    rw [toInt_of_lt (by omega)]
    omega

/-! ### Writes -/

/-- `sizeof(kbuf)` -/
abbrev kbufSize : Nat := 256

/-- A line of the kernel log: the count, and `kbuf` as it is printed, or `none` when the terminator
was stored outside of it. -/
structure Line where
  count : Nat
  kbuf : Option (List UInt8)

/-- What `%s` prints. -/
def Line.text (l : Line) : List UInt8 :=
  match l.kbuf with
  | some b => cstr b
  | none => []

/-- `my_write` on a buffer that can be read, with any bytes in `kbuf` before. -/
def myWrite (kbuf : Nat → Fin kbufSize → UInt8) (data : List UInt8) (log : List Line) :
    Int × List Line :=
  let toCopy := if data.length < kbufSize - 1 then data.length else kbufSize - 1
  let stored := (copyIn (List.ofFn (kbuf log.length)) (data.take toCopy)).bind
    fun b => store b toCopy 0
  (toCopy, log ++ [{ count := toCopy, kbuf := stored }])

/-- The terminator was stored inside of `kbuf`. -/
def Line.Inside (l : Line) : Prop := ∃ b, l.kbuf = some b ∧ b.length = kbufSize

variable {kbuf : Nat → Fin kbufSize → UInt8} {data : List UInt8} {log : List Line}

theorem toCopy_eq (n : Nat) : (if n < kbufSize - 1 then n else kbufSize - 1) = min n 255 := by
  simp only [kbufSize]
  split <;> omega

theorem myWrite_count (kbuf : Nat → Fin kbufSize → UInt8) (data : List UInt8) (log : List Line) :
    (myWrite kbuf data log).1 = ((min data.length 255 : Nat) : Int) := by
  unfold myWrite
  simp only [toCopy_eq]

/-- **One write.**  It takes up to 255 bytes, and prints them. -/
theorem myWrite_spec (kbuf : Nat → Fin kbufSize → UInt8) (log : List Line) (h0 : 0 ∉ data) :
    ∃ l : Line, myWrite kbuf data log = (((min data.length 255 : Nat) : Int), log ++ [l]) ∧
      l.Inside ∧ l.count = min data.length 255 ∧ l.text = data.take (min data.length 255) := by
  have hlen : (data.take (min data.length 255)).length = min data.length 255 := by
    rw [List.length_take]
    omega
  have hlt : (data.take (min data.length 255)).length < (List.ofFn (kbuf log.length)).length := by
    rw [hlen, List.length_ofFn]
    simp only [kbufSize]
    omega
  obtain ⟨x, r, hr⟩ := drop_eq_cons hlt
  have hstored : (copyIn (List.ofFn (kbuf log.length)) (data.take (min data.length 255))).bind
      (fun b => store b ((min data.length 255 : Nat) : Int) 0) =
      some (data.take (min data.length 255) ++ 0 :: r) := by
    have hstore := store_append (data.take (min data.length 255)) r x 0
    rw [hlen] at hstore
    rw [copyIn_of_le (Nat.le_of_lt hlt), hr, Option.bind_some, hstore]
  refine ⟨⟨min data.length 255, some (data.take (min data.length 255) ++ 0 :: r)⟩, ?_,
    ⟨_, rfl, ?_⟩, rfl, ?_⟩
  · unfold myWrite
    simp only [toCopy_eq, hstored]
  · have hrest := congrArg List.length hr
    rw [List.length_drop, List.length_ofFn, List.length_cons] at hrest
    rw [List.length_append, List.length_cons]
    omega
  · show cstr (data.take (min data.length 255) ++ 0 :: r) = _
    rw [cstr_append_zero, cstr_of_zero_notMem]
    exact fun hmem => h0 (List.mem_of_mem_take hmem)

/-- What has been printed, and what is left to write. -/
structure Written (data rest : List UInt8) (log : List Line) : Prop where
  inside : ∀ l ∈ log, l.Inside
  text : log.flatMap Line.text ++ rest = data

/-- A write goes on with it. -/
theorem Written.step {rest : List UInt8} (h : Written data rest log) (h0 : 0 ∉ data)
    (kbuf : Nat → Fin kbufSize → UInt8) :
    Written data (rest.drop (myWrite kbuf rest log).1.toNat) (myWrite kbuf rest log).2 := by
  have hrest : 0 ∉ rest := by
    rw [← h.text, List.mem_append, not_or] at h0
    exact h0.2
  obtain ⟨l, heq, hinside, -, htext⟩ := myWrite_spec kbuf log hrest
  rw [heq, Int.toNat_natCast]
  constructor
  · intro l' hl'
    rcases List.mem_append.1 hl' with hl' | hl'
    · exact h.inside l' hl'
    · rw [List.mem_singleton.1 hl']
      exact hinside
  · rw [List.flatMap_append, List.flatMap_singleton, htext, List.append_assoc,
      List.take_append_drop]
    exact h.text

/-- **Looped writes log everything once.** -/
theorem logged_once (kbuf : Nat → Fin kbufSize → UInt8) (h0 : 0 ∉ data) :
    ∃ ret log, resubmit (myWrite kbuf) (data.length + 1) data [] = some (ret, log) ∧
      0 ≤ ret ∧ (∀ l ∈ log, l.Inside) ∧ log.flatMap Line.text = data := by
  have hpos : ∀ rest log, rest ≠ [] → (myWrite kbuf rest log).1 ≠ 0 := by
    intro rest log hne
    have := List.length_pos_iff.2 hne
    rw [myWrite_count]
    omega
  have hend : ∀ rest log, Written data rest log → (myWrite kbuf rest log).1 < 0 ∨
      (rest.length : Int) ≤ (myWrite kbuf rest log).1 →
      0 ≤ (myWrite kbuf rest log).1 ∧ Written data [] (myWrite kbuf rest log).2 := by
    intro rest log h hdone
    have hstep := h.step h0 kbuf
    rw [myWrite_count] at hdone hstep ⊢
    rw [Int.toNat_natCast, List.drop_eq_nil_of_le (by omega)] at hstep
    exact ⟨by omega, hstep⟩
  obtain ⟨⟨ret, log⟩, hr⟩ := resubmit_ends (s := []) hpos (Nat.lt_succ_self data.length)
  obtain ⟨hret, hinside, htext⟩ := resubmit_rule (Q := fun r => 0 ≤ r.1 ∧ Written data [] r.2)
    hend (fun rest log h _ _ => h.step h0 kbuf) ⟨by simp, by simp⟩ hr
  rw [List.append_nil] at htext
  exact ⟨ret, log, hr, hret, hinside, htext⟩

/-- One byte more than `kbuf` can hold. -/
theorem logged_once_long :
    let data : List UInt8 := List.replicate 256 120
    ∃ ret log, resubmit (myWrite fun _ _ => 7) (data.length + 1) data [] = some (ret, log) ∧
      0 ≤ ret ∧ (∀ l ∈ log, l.Inside) ∧ log.flatMap Line.text = data :=
  logged_once (fun _ _ => 7) fun h => absurd (List.eq_of_mem_replicate h) (by decide)

end EmbeddedLinux.MyDevice
