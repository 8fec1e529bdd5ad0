import FsccDriver.Card

/-!
# WordTransfer — block transfers through a FIFO register

A block transfer moves whole words, the last one cut to the bytes that are left.  A transfer in pieces
is the transfer of the whole as long as every piece but the last ends with a word.
-/

namespace FsccDriver

variable {H : Type}

/-! ## The source -/

-- The `chunks` loop of `fscc_card_get_register_rep` from round `i` on.
def copyChunks (hw : Hardware H) (bar offset : Nat) : (chunks i : Nat) → List Byte → H → List Byte × H
  | 0, _, buf, h => (buf, h)
  | chunks + 1, i, buf, h =>
      let (value, h) := hw.ioRead bar offset h
      copyChunks hw bar offset chunks (i + 1) (Bytes.write buf (i * 4) (Bytes.ofWord value)) h

/-- `fscc_card_get_register_rep`, with `buf` as it leaves it. -/
def fsccCardGetRegisterRepBuf (hw : Hardware H) (bar : Fin 3) (offset : Nat) (buf : List Byte)
    (byteCount : Nat) (h : H) : List Byte × H :=
  if 0 < byteCount then
    let leftoverCount := byteCount % 4
    let chunks := (byteCount - leftoverCount) / 4
    let (buf, h) := copyChunks hw bar offset chunks 0 buf h
    if leftoverCount ≠ 0 then
      let (incomingData, h) := hw.ioRead bar offset h
      (Bytes.write buf (byteCount - leftoverCount) ((Bytes.ofWord incomingData).take leftoverCount), h)
    else (buf, h)
  else (buf, h)

/-- A string in a buffer that can be read up to the next multiple of 4. -/
structure Outgoing where
  data : List Byte
  behind : List Byte
  readable : (data.length + 3) / 4 * 4 ≤ data.length + behind.length

/-- A buffer with room for the bytes asked for. -/
structure Incoming where
  buf : List Byte
  byteCount : Nat
  fits : byteCount ≤ buf.length

def pushAll (hw : Hardware H) (bar : Fin 3) (offset : Nat) : List Outgoing → H → H
  | [], h => h
  | out :: rest, h =>
      pushAll hw bar offset rest
        (fsccCardSetRegisterRep hw bar offset (out.data ++ out.behind) out.data.length h)

def popAll (hw : Hardware H) (bar : Fin 3) (offset : Nat) : List Incoming → H → List (List Byte) × H
  | [], h => ([], h)
  | incoming :: rest, h =>
      let (buf, h) := fsccCardGetRegisterRepBuf hw bar offset incoming.buf incoming.byteCount h
      let (bufs, h) := popAll hw bar offset rest h
      (buf :: bufs, h)

/-! ## The register as a queue -/

/-- A register whose reads take words from the front of a queue and whose writes append to it. -/
structure FifoRegister (hw : Hardware H) (bar : Fin 3) (offset : Nat) where
  queue : H → List (BitVec 32)
  ioRead {h : H} {word : BitVec 32} {words : List (BitVec 32)} (hqueue : queue h = word :: words) :
    (hw.ioRead bar offset h).1 = word ∧ queue (hw.ioRead bar offset h).2 = words
  ioWrite (h : H) (word : BitVec 32) : queue (hw.ioWrite bar offset word h) = queue h ++ [word]

/-- A card with one such register and nothing else. -/
def wordQueue (bar offset : Nat) : Hardware (List (BitVec 32)) where
  ioRead bar' offset' words :=
    if bar' = bar ∧ offset' = offset then (words.headD 0, words.tail) else (0, words)
  ioWrite bar' offset' word words := if bar' = bar ∧ offset' = offset then words ++ [word] else words
  keQuerySystemTime words := (0, words)

def wordQueueRegister (bar : Fin 3) (offset : Nat) : FifoRegister (wordQueue bar offset) bar offset where
  queue words := words
  ioRead := by
    rintro _ word words rfl
    simp [wordQueue]
  ioWrite words word := if_pos ⟨rfl, rfl⟩

/-- Multiples of 4 up to the last. -/
def WholeWords (counts : List Nat) : Prop := ∀ n ∈ counts.dropLast, n % 4 = 0

instance (counts : List Nat) : Decidable (WholeWords counts) :=
  inferInstanceAs (Decidable (∀ n ∈ counts.dropLast, n % 4 = 0))

theorem WholeWords.head {n : Nat} {counts : List Nat} (h : WholeWords (n :: counts)) :
    counts = [] ∨ n % 4 = 0 := by
  cases counts with
  | nil => exact Or.inl rfl
  | cons next counts => exact Or.inr (h n List.mem_cons_self)

theorem WholeWords.tail {n : Nat} {counts : List Nat} (h : WholeWords (n :: counts)) :
    WholeWords counts := by
  cases counts with
  | nil => exact fun _ hmem ↦ absurd hmem List.not_mem_nil
  | cons next counts => exact fun m hm ↦ h m (List.mem_cons_of_mem _ hm)

/-! ## One transfer -/

theorem copyChunks_eq (hw : Hardware H) (bar offset : Nat) {chunks i : Nat} {buf : List Byte}
    (hfits : (i + chunks) * 4 ≤ buf.length) (h : H) :
    copyChunks hw bar offset chunks i buf h =
      (Bytes.write buf (i * 4) (Bytes.ofWords (ioReadChunks hw bar offset chunks h).1),
        (ioReadChunks hw bar offset chunks h).2) := by
  induction chunks generalizing i buf h with
  | zero => rw [copyChunks, ioReadChunks, Bytes.ofWords_nil, Bytes.write_nil]
  | succ chunks ih =>
    have hlength : (Bytes.write buf (i * 4) (Bytes.ofWord (hw.ioRead bar offset h).1)).length =
        buf.length := by
      apply Bytes.write_length
      rw [Bytes.ofWord_length]
      omega
    have hnext : (i + 1) * 4 = i * 4 + (Bytes.ofWord (hw.ioRead bar offset h).1).length := by
      rw [Bytes.ofWord_length]
      omega
    have hfits' : (i + 1 + chunks) * 4 ≤
        (Bytes.write buf (i * 4) (Bytes.ofWord (hw.ioRead bar offset h).1)).length := by
      omega
    rw [copyChunks, ioReadChunks]
    dsimp only
    rw [ih hfits', hnext, Bytes.write_write _ _ (by omega), Bytes.ofWords_cons]

/-- What the transfer stores are the bytes at the front of the buffer. -/
theorem fsccCardGetRegisterRepBuf_eq (hw : Hardware H) (bar : Fin 3) (offset : Nat) {buf : List Byte}
    {byteCount : Nat} (hfits : byteCount ≤ buf.length) (h : H) :
    fsccCardGetRegisterRepBuf hw bar offset buf byteCount h =
      (Bytes.write buf 0 (fsccCardGetRegisterRep hw bar offset byteCount h).1,
        (fsccCardGetRegisterRep hw bar offset byteCount h).2) := by
  rcases Nat.eq_zero_or_pos byteCount with rfl | hpos
  · rfl
  have hchunks : (byteCount - byteCount % 4) / 4 * 4 = byteCount - byteCount % 4 := by omega
  rw [fsccCardGetRegisterRepBuf, if_pos hpos]
  dsimp only
  rw [copyChunks_eq hw bar offset (by omega), Nat.zero_mul, fsccCardGetRegisterRep]
  dsimp only
  have hlength := ioReadChunks_length hw bar offset ((byteCount - byteCount % 4) / 4) h
  generalize ioReadChunks hw bar offset ((byteCount - byteCount % 4) / 4) h = read at hlength ⊢
  obtain ⟨values, h⟩ := read
  split
  · have hoff : byteCount - byteCount % 4 = 0 + (Bytes.ofWords values).length := by
      rw [Bytes.ofWords_length, hlength]
      omega
    rw [hoff, Bytes.write_write _ _ (Nat.zero_le _)]
  · rfl

section Queue

variable {hw : Hardware H} {bar : Fin 3} {offset : Nat} (fifo : FifoRegister hw bar offset)
variable {h : H} {words rest : List (BitVec 32)}

include fifo

theorem FifoRegister.ioReadChunks (hqueue : fifo.queue h = words ++ rest) :
    (ioReadChunks hw bar offset words.length h).1 = words ∧
      fifo.queue (ioReadChunks hw bar offset words.length h).2 = rest := by
  induction words generalizing h with
  | nil => exact ⟨rfl, hqueue⟩
  | cons word words ih =>
    obtain ⟨hword, htail⟩ := fifo.ioRead hqueue
    obtain ⟨hwords, hrest⟩ := ih htail
    rw [List.length_cons, FsccDriver.ioReadChunks]
    exact ⟨List.cons_eq_cons.mpr ⟨hword, hwords⟩, hrest⟩

/-- A block read takes as many words as its bytes need. -/
theorem FifoRegister.get (hqueue : fifo.queue h = words ++ rest) {byteCount : Nat}
    (hlength : words.length = (byteCount + 3) / 4) :
    (fsccCardGetRegisterRep hw bar offset byteCount h).1 = (Bytes.ofWords words).take byteCount ∧
      fifo.queue (fsccCardGetRegisterRep hw bar offset byteCount h).2 = rest := by
  rw [fsccCardGetRegisterRep]
  dsimp only
  by_cases hleft : byteCount % 4 = 0
  · have hchunks : (byteCount - byteCount % 4) / 4 = words.length := by omega
    obtain ⟨hwords, hrest⟩ := fifo.ioReadChunks hqueue
    rw [if_neg (not_not.mpr hleft), hchunks, hwords]
    refine ⟨(List.take_of_length_le ?_).symm, hrest⟩
    rw [Bytes.ofWords_length]
    omega
  · rcases List.eq_nil_or_concat words with rfl | ⟨front, last, rfl⟩
    · rw [List.length_nil] at hlength
      omega
    rw [List.concat_eq_append] at hqueue hlength ⊢
    rw [List.length_append, List.length_singleton] at hlength
    have hchunks : (byteCount - byteCount % 4) / 4 = front.length := by omega
    rw [List.append_assoc] at hqueue
    obtain ⟨hfront, htail⟩ := fifo.ioReadChunks hqueue
    obtain ⟨hlast, hrest⟩ := fifo.ioRead htail
    rw [if_pos hleft, hchunks]
    refine ⟨?_, hrest⟩
    have hcount : byteCount = (Bytes.ofWords front).length + byteCount % 4 := by
      rw [Bytes.ofWords_length]
      omega
    rw [hfront, hlast, Bytes.ofWords_append, Bytes.ofWords_cons, Bytes.ofWords_nil, List.append_nil]
    conv_rhs => rw [hcount, List.take_length_add_append]

/-- A block write appends its words. -/
theorem FifoRegister.set (data : List Byte) (byteCount : Nat) (h : H) :
    fifo.queue (fsccCardSetRegisterRep hw bar offset data byteCount h) =
      fifo.queue h ++ setRegisterRepWords data byteCount := by
  rw [fsccCardSetRegisterRep]
  generalize setRegisterRepWords data byteCount = words
  induction words generalizing h with
  | nil => exact (List.append_nil _).symm
  | cons word words ih =>
    rw [List.foldl_cons, ih, fifo.ioWrite, List.append_assoc]
    rfl

/-! ## Transfers in pieces -/

/-- Strings written one after another are one string in the queue. -/
theorem FifoRegister.pushAll {outgoing : List Outgoing}
    (haligned : WholeWords (outgoing.map (·.data.length))) :
    ∃ words, Bytes.Packed (outgoing.flatMap (·.data)) words ∧
      ∀ h, fifo.queue (pushAll hw bar offset outgoing h) = fifo.queue h ++ words := by
  induction outgoing with
  | nil => exact ⟨[], ⟨rfl, rfl⟩, fun h ↦ (List.append_nil _).symm⟩
  | cons out rest ih =>
    obtain ⟨words, hpacked, hqueue⟩ := ih haligned.tail
    have hout : Bytes.Packed out.data (setRegisterRepWords (out.data ++ out.behind) out.data.length) := by
      have hle : out.data.length ≤ (out.data ++ out.behind).length := by
        rw [List.length_append]
        omega
      have hsent := setRegisterRepWords_packed hle
      rwa [List.take_left] at hsent
    refine ⟨setRegisterRepWords (out.data ++ out.behind) out.data.length ++ words, ?_, fun h ↦ ?_⟩
    · rw [List.flatMap_cons]
      rcases haligned.head with hlast | halign
      · rw [List.map_eq_nil_iff] at hlast
        subst hlast
        have hnil : words = [] := List.length_eq_zero_iff.mp hpacked.length
        rw [hnil, List.append_nil, List.flatMap_nil, List.append_nil]
        exact hout
      · exact hout.append hpacked halign
    · rw [FsccDriver.pushAll, hqueue, fifo.set, List.append_assoc]

/-- A string in the queue can be read in pieces. -/
theorem FifoRegister.popAll {incoming : List Incoming} {data : List Byte}
    (haligned : WholeWords (incoming.map (·.byteCount))) (hpacked : Bytes.Packed data words)
    (htotal : (incoming.map (·.byteCount)).sum = data.length) (hqueue : fifo.queue h = words ++ rest) :
    ∃ pieces : List (List Byte), pieces.map List.length = incoming.map (·.byteCount) ∧
      pieces.flatten = data ∧
      (popAll hw bar offset incoming h).1 =
        List.zipWith (fun piece target ↦ Bytes.write target.buf 0 piece) pieces incoming ∧
      fifo.queue (popAll hw bar offset incoming h).2 = rest := by
  induction incoming generalizing data words h with
  | nil =>
    have hdata : data = [] := List.length_eq_zero_iff.mp htotal.symm
    subst hdata
    have hnil : words = [] := List.length_eq_zero_iff.mp hpacked.length
    subst hnil
    exact ⟨[], rfl, rfl, rfl, hqueue⟩
  | cons target targets ih =>
    rw [List.map_cons, List.sum_cons] at htotal
    have hcut : target.byteCount % 4 = 0 ∨ target.byteCount = data.length := by
      rcases haligned.head with hlast | halign
      · rw [hlast] at htotal
        exact Or.inr htotal
      · exact Or.inl halign
    obtain ⟨front, back, rfl, hfront, hback⟩ := hpacked.split (by omega) hcut
    have hcount : (data.take target.byteCount).length = target.byteCount := by
      rw [List.length_take]
      omega
    rw [List.append_assoc] at hqueue
    obtain ⟨hget, htail⟩ := fifo.get hqueue (hcount ▸ hfront.length)
    obtain ⟨pieces, hlengths, hflatten, hbufs, hrest⟩ :=
      ih haligned.tail hback (by rw [List.length_drop]; omega) htail
    have hpiece : (fsccCardGetRegisterRep hw bar offset target.byteCount h).1 =
        data.take target.byteCount := by
      rw [hget, ← hfront.bytes, hcount]
    refine ⟨data.take target.byteCount :: pieces, ?_, ?_, ?_, ?_⟩
    · rw [List.map_cons, List.map_cons, hcount, hlengths]
    · rw [List.flatten_cons, hflatten, List.take_append_drop]
    · rw [FsccDriver.popAll, fsccCardGetRegisterRepBuf_eq hw bar offset target.fits, hpiece]
      dsimp only
      rw [hbufs]
      rfl
    · rw [FsccDriver.popAll, fsccCardGetRegisterRepBuf_eq hw bar offset target.fits]
      exact hrest

/-- Strings written to the register one after another can be read back in any pieces: the pieces are
the strings, each goes to the front of its buffer, and what has been written since stays behind. -/
theorem fscc_card_register_rep_round_trip (outgoing : List Outgoing) (incoming : List Incoming)
    (hout : WholeWords (outgoing.map (·.data.length))) (hin : WholeWords (incoming.map (·.byteCount)))
    (htotal : (incoming.map (·.byteCount)).sum = (outgoing.map (·.data.length)).sum)
    (hempty : fifo.queue h = []) {h' : H}
    (hlater : fifo.queue h' = fifo.queue (pushAll hw bar offset outgoing h) ++ rest) :
    ∃ pieces : List (List Byte), pieces.map List.length = incoming.map (·.byteCount) ∧
      pieces.flatten = outgoing.flatMap (·.data) ∧
      (popAll hw bar offset incoming h').1 =
        List.zipWith (fun piece target ↦ Bytes.write target.buf 0 piece) pieces incoming ∧
      fifo.queue (popAll hw bar offset incoming h').2 = rest := by
  obtain ⟨words, hpacked, hqueue⟩ := fifo.pushAll hout
  have hlength : (outgoing.flatMap (·.data)).length = (outgoing.map (·.data.length)).sum := by
    rw [List.length_flatMap]
  rw [hqueue, hempty, List.nil_append] at hlater
  exact fifo.popAll hin hpacked (htotal.trans hlength.symm) hlater

end Queue

-- Four and two bytes, read back as a whole.
def fourAndTwoBytes : List Outgoing :=
  [⟨[1, 2, 3, 4], [], by decide⟩, ⟨[5, 6], [9, 9], by decide⟩]

def sevenByteBuffer : List Incoming := [⟨[0, 0, 0, 0, 0, 0, 7], 6, by decide⟩]

theorem fscc_card_register_rep_round_trip_six_bytes :
    ∃ pieces : List (List Byte), pieces.map List.length = [6] ∧ pieces.flatten = [1, 2, 3, 4, 5, 6] ∧
      (popAll (wordQueue 0 0) 0 0 sevenByteBuffer (pushAll (wordQueue 0 0) 0 0 fourAndTwoBytes [])).1 =
        List.zipWith (fun piece target ↦ Bytes.write target.buf 0 piece) pieces sevenByteBuffer ∧
      (popAll (wordQueue 0 0) 0 0 sevenByteBuffer (pushAll (wordQueue 0 0) 0 0 fourAndTwoBytes [])).2 = [] :=
  fscc_card_register_rep_round_trip (wordQueueRegister 0 0) (h := []) fourAndTwoBytes sevenByteBuffer
    (by decide) (by decide) rfl rfl (List.append_nil _).symm

end FsccDriver
