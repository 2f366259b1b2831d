import Mathlib.Algebra.GroupWithZero.Nat
import SelfPlay.Files.StoredBlocks

/-!
# Stored blocks read again

Each block says its length twice, so reading finds the block's end and whether another one follows.
After the last block come the checksum and the length of the content, which reading compares with
what it has read.
-/

namespace SelfPlay.StoredBlocks

@[simp] theorem length_littleEndian (count n : Nat) : (littleEndian count n).length = count := by
  induction count generalizing n with
  | zero => rfl
  | succ count ih => rw [littleEndian, List.length_cons, ih]

theorem ofLittleEndian_littleEndian {count n : Nat} (h : n < 256 ^ count) :
    ofLittleEndian (littleEndian count n) = n := by
  induction count generalizing n with
  | zero =>
    rw [Nat.pow_zero, Nat.lt_one_iff] at h
    rw [h]
    rfl
  | succ count ih =>
    have hrest : n / 256 < 256 ^ count := by
      rw [Nat.pow_succ] at h
      exact Nat.div_lt_of_lt_mul (by omega)
    have hlow : (UInt8.ofNat (n % 256)).toNat = n % 256 := by
      rw [UInt8.toNat_ofNat']
      exact Nat.mod_mod n 256
    rw [littleEndian, ofLittleEndian, ih hrest, hlow]
    exact Nat.mod_add_div n 256

theorem littleEndian_two (n : Nat) :
    littleEndian 2 n = [UInt8.ofNat (n % 256), UInt8.ofNat (n / 256 % 256)] := rfl

/-- A block is what is read when it is the last one, and else what is read first. -/
theorem readBlocks_marked {block : List UInt8} (h : block.length ≤ maxBlock) (fuel : Nat)
    (rest : List UInt8) :
    readBlocks (fuel + 1) (marked 1 block ++ rest) = (⟨block, none⟩, rest) ∧
    ∀ content after, readBlocks fuel rest = (⟨content, none⟩, after) →
      readBlocks (fuel + 1) (marked 0 block ++ rest) = (⟨block ++ content, none⟩, after) := by
  have hbound : maxBlock < 256 ^ 2 := by decide
  have hlength : ofLittleEndian (littleEndian 2 block.length) = block.length :=
    ofLittleEndian_littleEndian (Nat.lt_of_le_of_lt h hbound)
  have hcheck : ofLittleEndian (littleEndian 2 (maxBlock - block.length)) =
      maxBlock - block.length :=
    ofLittleEndian_littleEndian (Nat.lt_of_le_of_lt (Nat.sub_le _ _) hbound)
  have hsum : block.length + (maxBlock - block.length) = maxBlock := Nat.add_sub_cancel' h
  have henough : ¬ block.length + rest.length < block.length := by omega
  have hlast : (1 : UInt8) &&& 6 = 0 := by decide
  rw [littleEndian_two] at hlength hcheck
  unfold marked
  simp only [littleEndian_two, List.cons_append, List.nil_append]
  constructor
  · simp [readBlocks, hlength, hcheck, hsum, henough, hlast]
  · intro content after hrest
    simp [readBlocks, hlength, hcheck, hsum, henough, hrest]

theorem storedBlocks_of_le {content : List UInt8} (h : content.length ≤ maxBlock) (fuel : Nat) :
    storedBlocks fuel content = marked 1 content := by
  cases fuel with
  | zero => rw [storedBlocks, List.take_of_length_le h]
  | succ fuel => rw [storedBlocks, if_pos h]

theorem storedBlocks_of_lt {content : List UInt8} (h : ¬ content.length ≤ maxBlock) (fuel : Nat) :
    storedBlocks (fuel + 1) content =
      marked 0 (content.take maxBlock) ++ storedBlocks fuel (content.drop maxBlock) := by
  rw [storedBlocks, if_neg h]

theorem length_drop_le {fuel : Nat} {content : List UInt8}
    (h : content.length ≤ (fuel + 1 + 1) * maxBlock) :
    (content.drop maxBlock).length ≤ (fuel + 1) * maxBlock := by
  rw [Nat.succ_mul] at h
  rw [List.length_drop]
  exact Nat.sub_le_of_le_add h

/-- **All blocks are read, and nothing after them.** -/
theorem readBlocks_storedBlocks {fuel more : Nat} (hfuel : fuel < more) {content : List UInt8}
    (h : content.length ≤ (fuel + 1) * maxBlock) (rest : List UInt8) :
    readBlocks more (storedBlocks fuel content ++ rest) = (⟨content, none⟩, rest) := by
  obtain ⟨more, rfl⟩ : ∃ before, more = before + 1 := ⟨more - 1, by omega⟩
  by_cases hshort : content.length ≤ maxBlock
  · rw [storedBlocks_of_le hshort]
    exact (readBlocks_marked hshort more rest).1
  · cases fuel with
    | zero => omega
    | succ fuel =>
      have hblock : (content.take maxBlock).length ≤ maxBlock := List.length_take_le _ _
      have hnext :=
        readBlocks_storedBlocks (Nat.lt_of_succ_lt_succ hfuel) (length_drop_le h) rest
      rw [storedBlocks_of_lt hshort, List.append_assoc,
        (readBlocks_marked hblock more _).2 _ _ hnext, List.take_append_drop]

theorem length_le_storedBlocks {fuel : Nat} {content : List UInt8}
    (h : content.length ≤ (fuel + 1) * maxBlock) :
    content.length ≤ (storedBlocks fuel content).length := by
  by_cases hshort : content.length ≤ maxBlock
  · rw [storedBlocks_of_le hshort]
    simp only [marked, List.length_append, List.length_cons]
    omega
  · cases fuel with
    | zero => omega
    | succ fuel =>
      have hnext := length_le_storedBlocks (length_drop_le h)
      rw [List.length_drop] at hnext
      rw [storedBlocks_of_lt hshort]
      simp only [marked, List.length_append, List.length_cons, List.length_take]
      omega

theorem skipHeader_plainHeader (body : List UInt8) :
    skipHeader (plainHeader ++ body) = .ok body := by
  have hfixed : takeExactly 10 (plainHeader ++ body) = .ok (plainHeader, body) := by
    have henough : 10 ≤ (plainHeader ++ body).length := by
      rw [List.length_append]
      exact Nat.le_add_right 10 _
    rw [takeExactly, if_pos henough]
    rfl
  unfold skipHeader
  rw [hfixed]
  rfl

/-- **What is stored is read again.** -/
theorem codec_roundTrips : codec.RoundTrips := by
  intro content
  have hblocks : content.length ≤ (content.length / maxBlock + 1) * maxBlock := by
    rw [Nat.mul_comm]
    exact Nat.le_of_lt (Nat.lt_mul_div_succ content.length (by decide))
  generalize hbody : storedBlocks (content.length / maxBlock) content ++
    (littleEndian 4 (checksum content).toNat ++
      littleEndian 4 (content.length % lengthModulus)) = body
  have hfuel : content.length / maxBlock < body.length + 1 := by
    have hlength := length_le_storedBlocks hblocks
    rw [← hbody, List.length_append]
    have hdiv := Nat.div_le_self content.length maxBlock
    omega
  have hread := readBlocks_storedBlocks hfuel hblocks
    (littleEndian 4 (checksum content).toNat ++ littleEndian 4 (content.length % lengthModulus))
  rw [hbody] at hread
  have hcheck : ofLittleEndian (littleEndian 4 (checksum content).toNat) =
      (checksum content).toNat :=
    ofLittleEndian_littleEndian (checksum content).toNat_lt
  have hlength : ofLittleEndian (littleEndian 4 (content.length % lengthModulus)) =
      content.length % lengthModulus :=
    ofLittleEndian_littleEndian (Nat.mod_lt _ (by decide))
  have hstored : codec.compress content = plainHeader ++ body := by
    rw [← hbody, ← List.append_assoc, ← List.append_assoc]
    rfl
  rw [hstored]
  change decompress (plainHeader ++ body) = _
  unfold decompress
  rw [skipHeader_plainHeader]
  have height : (littleEndian 4 (checksum content).toNat ++
      littleEndian 4 (content.length % lengthModulus)).length = 8 := by simp
  simp only [hread, height, Nat.lt_irrefl, if_false]
  rw [List.take_left' (length_littleEndian 4 _), List.drop_left' (length_littleEndian 4 _),
    List.take_of_length_le (Nat.le_of_eq (length_littleEndian 4 _)), hcheck, hlength,
    if_pos ⟨rfl, rfl⟩]
  rfl

end SelfPlay.StoredBlocks
