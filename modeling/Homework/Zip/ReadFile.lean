import Homework.Library.Cells

/-!
# Reading a whole file

`read_file` reads with `fread` into a buffer until the end of the file has been noticed, and doubles
the buffer whenever it is full. `fread` belongs to the C library: what its calls give is a sequence
of results, and `Consistent` says that they are the results of reading a file. Sizes are 64-bit
words. A failure ends the program with a message of `perror`; a write outside the buffer is a fault.

Behind each round of the loop the buffer holds what has been read of the file (`Holds`), and either
the end was noticed or at least one byte was read (`Holds.round`). So the loop comes to its end
after at most one round more than the file has bytes (`readFile_whole`).
-/

set_option autoImplicit false
set_option relaxedAutoImplicit false

namespace Homework.Zip

open Homework.Library Homework.Library.ByteBuffer Homework.Library.Cells

/-- What a call of `fread` stores, and what `feof` and `ferror` say afterwards. -/
structure FreadResult where
  bytes : List UInt8
  eof : Bool
  error : Bool

/-- The variables of `read_file`, and what `feof` says. -/
structure Reading where
  buf : CellArray
  bufCap : UInt64
  fileSz : UInt64
  eof : Bool

/-- A run that does not come to its end: it exits with a message, or writes where it must not. -/
inductive Failure where
  | exited (message : String)
  | fault (fault : CellFault)
deriving DecidableEq, Repr

section Source

variable (allocator : Allocator)

def xmalloc (size : UInt64) : Except Failure CellArray :=
  if allocator.grants size.toNat then .ok (fresh size.toNat) else .error (.exited "malloc")

def xrealloc (buf : CellArray) (size : UInt64) : Except Failure CellArray :=
  if allocator.grants size.toNat then .ok (resize buf size.toNat) else .error (.exited "realloc")

/-- The `if` of the loop of `read_file`. -/
def growBuffer (reading : Reading) : Except Failure Reading :=
  if reading.bufCap - reading.fileSz = 0 then do
    let bufCap := reading.bufCap * 2
    let buf ← xrealloc allocator reading.buf bufCap
    return { reading with buf, bufCap }
  else return reading

/-- How many bytes `fread` is asked for. -/
def Reading.room (reading : Reading) : UInt64 := reading.bufCap - reading.fileSz

/-- `fread` stores its bytes behind those of the file that are there. -/
def storeBytes (reading : Reading) (result : FreadResult) : Except Failure Reading :=
  match write reading.buf reading.fileSz.toNat result.bytes with
  | .error fault => .error (.fault fault)
  | .ok buf => .ok { reading with
      buf
      fileSz := reading.fileSz + UInt64.ofNat result.bytes.length
      eof := result.eof }

/-- The body of the loop of `read_file`. -/
def readRound (reading : Reading) (result : FreadResult) : Except Failure Reading := do
  let reading ← growBuffer allocator reading
  let reading ← storeBytes reading result
  if result.error then throw (.exited "fread")
  return reading

/-- The variables of `read_file` before its loop. -/
def beginReading : Except Failure Reading := do
  let buf ← xmalloc allocator 4096
  return ⟨buf, 4096, 0, false⟩

/-- The loop of `read_file`, for some rounds at most. -/
def readLoop (results : ℕ → FreadResult) : ℕ → Except Failure Reading
  | 0 => beginReading allocator
  | rounds + 1 => do
    let reading ← readLoop results rounds
    if reading.eof then return reading
    readRound allocator reading (results rounds)

/-- `read_file`, with `none` if its loop goes on after some rounds. `opens` and `closes` say whether
`fopen` and `fclose` succeed. -/
def readFile (opens closes : Bool) (results : ℕ → FreadResult) (rounds : ℕ) :
    Except Failure (Option (CellArray × UInt64)) := do
  if !opens then throw (.exited "fopen")
  let reading ← readLoop allocator results rounds
  if !reading.eof then return none
  if !closes then throw (.exited "fclose")
  return some (reading.buf, reading.fileSz)

/-! ### The file -/

/-- A result of `fread` when it is asked for `room` bytes and `rest` is left of the file: the count
is short only at the end of the file, and the end is noticed only when everything has been read. -/
structure Gives (rest : List UInt8) (room : ℕ) (result : FreadResult) : Prop where
  next : result.bytes <+: rest
  fits : result.bytes.length ≤ room
  short : result.bytes.length < room → result.eof = true
  atEnd : result.eof = true → result.bytes = rest
  noError : result.error = false

/-- The results are those of reading a file. -/
def Consistent (content : List UInt8) (results : ℕ → FreadResult) : Prop :=
  ∀ rounds reading grown, readLoop allocator results rounds = .ok reading → reading.eof = false →
    growBuffer allocator reading = .ok grown →
      Gives (content.drop grown.fileSz.toNat) grown.room.toNat (results rounds)

end Source

/-! ### One round -/

/-- The buffer holds what has been read of a file. -/
structure Holds (content : List UInt8) (reading : Reading) : Prop where
  buf : reading.buf = begun reading.bufCap.toNat (content.take reading.fileSz.toNat)
  fits : reading.fileSz.toNat ≤ reading.bufCap.toNat
  inside : reading.fileSz.toNat ≤ content.length
  bound : reading.bufCap.toNat ≤ max 4096 (2 * content.length)
  pos : 0 < reading.bufCap.toNat
  atEnd : reading.eof = true → reading.fileSz.toNat = content.length

section Rounds

variable {allocator : Allocator} {content : List UInt8} {reading grown next : Reading}
  {result : FreadResult}

theorem Holds.room (hholds : Holds content reading) :
    reading.room.toNat = reading.bufCap.toNat - reading.fileSz.toNat :=
  UInt64.toNat_sub_of_le _ _ (UInt64.le_iff_toNat_le.mpr hholds.fits)

theorem Holds.length_take (hholds : Holds content reading) :
    (content.take reading.fileSz.toNat).length = reading.fileSz.toNat :=
  List.length_take_of_le hholds.inside

theorem holds_begin (content : List UInt8) : Holds content ⟨begun 4096 [], 4096, 0, false⟩ :=
  ⟨rfl, by decide, Nat.zero_le _, le_max_left _ _, by decide, nofun⟩

/-- There is room when the buffer has grown. -/
theorem Holds.grow (hholds : Holds content reading)
    (hgrants : ∀ size ≤ max 4096 (2 * content.length), allocator.grants size = true) :
    ∃ grown, growBuffer allocator reading = .ok grown ∧ Holds content grown ∧
      grown.fileSz = reading.fileSz ∧ grown.eof = reading.eof ∧ 0 < grown.room.toNat := by
  have hfits := hholds.fits
  have hroom := hholds.room
  rw [growBuffer]
  split
  · next hfull =>
    have hzero : reading.room.toNat = 0 := congrArg UInt64.toNat hfull
    have hinside := hholds.inside
    have hpos := hholds.pos
    have hdouble : 2 * reading.bufCap.toNat ≤ max 4096 (2 * content.length) :=
      le_max_of_le_right (by omega)
    have hsmall := allocator.lt_of_grants _ (hgrants _ hdouble)
    have hcap : (reading.bufCap * 2).toNat = 2 * reading.bufCap.toNat := by
      have htwo : (2 : UInt64).toNat = 2 := rfl
      rw [UInt64.toNat_mul, htwo]
      omega
    have hrealloc : xrealloc allocator reading.buf (reading.bufCap * 2) =
        .ok (resize reading.buf (2 * reading.bufCap.toNat)) := by
      rw [xrealloc, hcap, if_pos (hgrants _ hdouble)]
    simp only [hrealloc, ok_bind, pure_eq_ok]
    have hholds' : Holds content { reading with
        buf := resize reading.buf (2 * reading.bufCap.toNat), bufCap := reading.bufCap * 2 } := by
      refine ⟨?_, ?_, hinside, hcap.trans_le hdouble, ?_, hholds.atEnd⟩
      · rw [hcap, hholds.buf, resize_begun (hholds.length_take.trans_le hfits) (by omega)]
      · exact (show reading.fileSz.toNat ≤ 2 * reading.bufCap.toNat by omega).trans_eq hcap.symm
      · exact hcap.symm ▸ (show 0 < 2 * reading.bufCap.toNat by omega)
    refine ⟨_, rfl, hholds', rfl, rfl, ?_⟩
    rw [hholds'.room, hcap]
    change 0 < 2 * reading.bufCap.toNat - reading.fileSz.toNat
    omega
  · next hfull =>
    refine ⟨reading, rfl, hholds, rfl, rfl, Nat.pos_of_ne_zero fun hzero ↦ hfull ?_⟩
    exact UInt64.toNat_inj.mp hzero

/-- The bytes of a result go behind those that are there. -/
theorem Holds.store (hholds : Holds content reading)
    (hgives : Gives (content.drop reading.fileSz.toNat) reading.room.toNat result) :
    ∃ next, storeBytes reading result = .ok next ∧ Holds content next ∧
      next.eof = result.eof ∧
      next.fileSz.toNat = reading.fileSz.toNat + result.bytes.length := by
  have hfits := hholds.fits
  have hinside := hholds.inside
  have hcount := hgives.fits
  have hleft := hgives.next.length_le
  rw [hholds.room] at hcount
  rw [List.length_drop] at hleft
  have hcap := reading.bufCap.toNat_lt
  have hsize : (reading.fileSz + UInt64.ofNat result.bytes.length).toNat =
      reading.fileSz.toNat + result.bytes.length := by
    rw [UInt64.toNat_add, UInt64.toNat_ofNat']
    omega
  have htake : content.take (reading.fileSz.toNat + result.bytes.length) =
      content.take reading.fileSz.toNat ++ result.bytes := by
    rw [List.take_add, ← List.prefix_iff_eq_take.mp hgives.next]
  have hroom : (content.take reading.fileSz.toNat).length + result.bytes.length ≤
      reading.bufCap.toNat := by
    rw [hholds.length_take]
    omega
  have hwrite := write_begun hroom
  rw [hholds.length_take, ← hholds.buf] at hwrite
  rw [storeBytes, hwrite]
  refine ⟨_, rfl, ?_, rfl, hsize⟩
  refine ⟨?_, ?_, ?_, hholds.bound, hholds.pos, ?_⟩
  · rw [hsize, htake]
  · exact hsize.trans_le (show _ ≤ reading.bufCap.toNat by omega)
  · exact hsize.trans_le (by omega)
  · intro heof
    rw [hsize, hgives.atEnd heof, List.length_drop]
    omega

/-- A round reads on, and brings the end or at least one byte. -/
theorem Holds.round (hholds : Holds content reading)
    (hgrants : ∀ size ≤ max 4096 (2 * content.length), allocator.grants size = true)
    (hgives : ∀ grown, growBuffer allocator reading = .ok grown →
      Gives (content.drop grown.fileSz.toNat) grown.room.toNat result) :
    ∃ next, readRound allocator reading result = .ok next ∧ Holds content next ∧
      (next.eof = true ∨ reading.fileSz.toNat < next.fileSz.toNat) := by
  obtain ⟨grown, hgrow, hgrown, hsame, -, hroom⟩ := hholds.grow hgrants
  have hresult := hgives grown hgrow
  obtain ⟨next, hstore, hnext, heof, hsize⟩ := hgrown.store hresult
  refine ⟨next, ?_, hnext, ?_⟩
  · rw [readRound, hgrow, ok_bind, hstore, ok_bind, hresult.noError]
    rfl
  · rw [heof, hsize, hsame]
    rcases Nat.lt_or_ge result.bytes.length grown.room.toNat with hshort | hfull
    · exact Or.inl (hresult.short hshort)
    · exact Or.inr (by omega)

end Rounds

/-! ### The loop -/

section Loop

variable {allocator : Allocator} {content : List UInt8} {results : ℕ → FreadResult}
  (hgrants : ∀ size ≤ max 4096 (2 * content.length), allocator.grants size = true)
  (hresults : Consistent allocator content results)

include hgrants hresults

omit hresults in
theorem readLoop_zero :
    readLoop allocator results 0 = .ok ⟨begun 4096 [], 4096, 0, false⟩ := by
  have hcap : (4096 : UInt64).toNat = 4096 := rfl
  rw [readLoop, beginReading, xmalloc, hcap, if_pos (hgrants _ (le_max_left _ _))]
  rfl

/-- Every round keeps what has been read, and the loop has come to its end or read as many bytes as
it has made rounds. -/
theorem holds_readLoop (rounds : ℕ) :
    ∃ reading, readLoop allocator results rounds = .ok reading ∧ Holds content reading ∧
      (reading.eof = true ∨ rounds ≤ reading.fileSz.toNat) := by
  induction rounds with
  | zero =>
    exact ⟨_, readLoop_zero hgrants, holds_begin content, Or.inr (Nat.zero_le _)⟩
  | succ rounds ih =>
    obtain ⟨reading, hloop, hholds, hprogress⟩ := ih
    rw [readLoop, hloop, ok_bind]
    rcases heof : reading.eof with _ | _
    · have hread := hprogress.resolve_left (heof ▸ Bool.false_ne_true)
      obtain ⟨next, hround, hnext, hmore⟩ :=
        hholds.round hgrants fun grown hgrow ↦ hresults rounds reading grown hloop heof hgrow
      refine ⟨next, hround, hnext, hmore.imp_right fun hlt ↦ ?_⟩
      omega
    · exact ⟨reading, rfl, hholds, Or.inl heof⟩

theorem eof_readLoop {rounds : ℕ} (hrounds : content.length < rounds) :
    ∃ reading, readLoop allocator results rounds = .ok reading ∧ Holds content reading ∧
      reading.eof = true := by
  obtain ⟨reading, hloop, hholds, hprogress⟩ := holds_readLoop hgrants hresults rounds
  refine ⟨reading, hloop, hholds, hprogress.resolve_right fun hle ↦ ?_⟩
  have hinside := hholds.inside
  omega

/-- `read_file` returns the whole file, whatever its length and however `fread` notices its end. In
every round there is room for a byte, and what `fread` is asked for ends where the buffer ends.
Assumes: `fopen`, `fread` and `fclose` succeed, and so do the requests for memory up to twice the
length of the file. -/
theorem readFile_whole :
    (∀ rounds reading, readLoop allocator results rounds = .ok reading → reading.eof = false →
      ∃ grown, growBuffer allocator reading = .ok grown ∧ 0 < grown.room.toNat ∧
        grown.fileSz.toNat + grown.room.toNat = grown.bufCap.toNat ∧
        grown.buf.length = grown.bufCap.toNat) ∧
    ∀ rounds, content.length < rounds →
      ∃ buf fileSz, readFile allocator true true results rounds = .ok (some (buf, fileSz)) ∧
        fileSz.toNat = content.length ∧ buf.take fileSz.toNat = content.map some := by
  constructor
  · intro rounds reading hloop heof
    obtain ⟨found, hfound, hholds, -⟩ := holds_readLoop hgrants hresults rounds
    obtain rfl := Except.ok.inj (hloop.symm.trans hfound)
    obtain ⟨grown, hgrow, hgrown, -, -, hroom⟩ := hholds.grow hgrants
    refine ⟨grown, hgrow, hroom, ?_, ?_⟩
    · have hfits := hgrown.fits
      rw [hgrown.room]
      omega
    · rw [hgrown.buf, length_begun (hgrown.length_take.trans_le hgrown.fits)]
  · intro rounds hrounds
    obtain ⟨reading, hloop, hholds, heof⟩ := eof_readLoop hgrants hresults hrounds
    have hsize := hholds.atEnd heof
    refine ⟨reading.buf, reading.fileSz, ?_, hsize, ?_⟩
    · rw [readFile, hloop]
      simp only [heof, ok_bind, pure_eq_ok]
      rfl
    · rw [hholds.buf, hsize, List.take_length, take_begun]

end Loop

/-! ### Small files -/

/-- A file that a single call of `fread` reads. -/
def wholeResults (content : List UInt8) : ℕ → FreadResult
  | 0 => ⟨content, true, false⟩
  | _ + 1 => ⟨[], true, false⟩

/-- The buffer has room before the first round. -/
theorem growBuffer_begun : growBuffer generous ⟨begun 4096 [], 4096, 0, false⟩ =
    .ok ⟨begun 4096 [], 4096, 0, false⟩ := by
  rw [growBuffer, if_neg (by decide)]
  rfl

section Whole

variable {content : List UInt8} (hsmall : content.length < 4096)
include hsmall

theorem gives_wholeResults : Gives content 4096 (wholeResults content 0) :=
  ⟨List.prefix_refl _, hsmall.le, fun _ ↦ rfl, fun _ ↦ rfl, rfl⟩

theorem grants_whole : ∀ size ≤ max 4096 (2 * content.length), generous.grants size = true :=
  fun size hsize ↦ decide_eq_true (by omega)

theorem readLoop_whole_zero :
    readLoop generous (wholeResults content) 0 = .ok ⟨begun 4096 [], 4096, 0, false⟩ :=
  readLoop_zero (grants_whole hsmall)

/-- After the first round everything is read and the loop has stopped. -/
theorem eof_of_readLoop_whole (rounds : ℕ) : ∃ reading,
    readLoop generous (wholeResults content) (rounds + 1) = .ok reading ∧ reading.eof = true := by
  induction rounds with
  | zero =>
    have hgives := gives_wholeResults hsmall
    obtain ⟨next, hstore, -, heof, -⟩ := (holds_begin content).store hgives
    refine ⟨next, ?_, heof⟩
    rw [readLoop, readLoop_whole_zero hsmall, ok_bind, readRound]
    simp only [Bool.false_eq_true, if_false, growBuffer_begun, ok_bind, hstore]
    rfl
  | succ rounds ih =>
    obtain ⟨reading, hloop, heof⟩ := ih
    refine ⟨reading, ?_, heof⟩
    rw [readLoop, hloop, ok_bind, if_pos heof]
    rfl

theorem consistent_whole : Consistent generous content (wholeResults content) := by
  intro rounds reading grown hloop heof hgrown
  cases rounds with
  | zero =>
    obtain rfl := Except.ok.inj ((readLoop_whole_zero hsmall).symm.trans hloop)
    obtain rfl := Except.ok.inj (growBuffer_begun.symm.trans hgrown)
    exact gives_wholeResults hsmall
  | succ rounds =>
    obtain ⟨found, hfound, hfoundEof⟩ := eof_of_readLoop_whole hsmall rounds
    obtain rfl := Except.ok.inj (hfound.symm.trans hloop)
    exact absurd (hfoundEof.symm.trans heof) (by decide)

end Whole

/-- Three bytes, read at once. -/
def shortResults : ℕ → FreadResult
  | 0 => ⟨[80, 75, 5], true, false⟩
  | _ + 1 => ⟨[], true, false⟩

theorem shortResults_eq : shortResults = wholeResults [80, 75, 5] := by
  funext rounds
  cases rounds <;> rfl

/-- The three bytes are returned. -/
theorem readFile_short : ∃ buf fileSz,
    readFile generous true true shortResults 4 = .ok (some (buf, fileSz)) ∧
      fileSz.toNat = 3 ∧ buf.take fileSz.toNat = [some 80, some 75, some 5] := by
  have hsmall : ([80, 75, 5] : List UInt8).length < 4096 := by decide
  rw [shortResults_eq]
  exact (readFile_whole (grants_whole hsmall) (consistent_whole hsmall)).2 4 (by decide)

end Homework.Zip
