import ImageTriage.Bytes.Basic

/-!
# Padding a message to whole blocks

MD5 and the SHA-2 family work on whole blocks. A message is followed by a byte 0x80, by as few zero
bytes as it takes, and by its length in bits, so that the last block is full: `dvd_size_pad`.
-/

namespace ImageTriage.Digest

/-- The number of zero bytes between the mark and a length field of `field` bytes. -/
def zeroCount (block field size : Nat) : Nat := (block - (size + 1 + field) % block) % block

/-- The message with its padding; `field` holds the bytes of its length. -/
def pad (block : Nat) (field : List UInt8) (message : Bytes) : Bytes :=
  ⟨(message.push 0x80).data ++ Array.replicate (zeroCount block field.length message.size) 0
    ++ field.toArray⟩

/-- A padded message consists of whole blocks. -/
theorem dvd_size_pad (block : Nat) (field : List UInt8) (message : Bytes) (h : 0 < block) :
    block ∣ (pad block field message).size := by
  have hsize : (pad block field message).size
      = message.size + 1 + zeroCount block field.length message.size + field.length := by
    unfold pad
    rw [← ByteArray.size_data, ByteArray.data_push]
    simp only [Array.size_append, Array.size_push, Array.size_replicate, List.size_toArray,
      ByteArray.size_data]
  rw [hsize]
  unfold zeroCount
  generalize hn : message.size + 1 + field.length = n
  have hmod := Nat.mod_lt n h
  have hdiv := Nat.div_add_mod n block
  have : message.size + 1 + (block - n % block) % block + field.length
      = n + (block - n % block) % block := by omega
  rw [this]
  by_cases hz : n % block = 0
  · simp [hz, Nat.dvd_of_mod_eq_zero hz]
  · rw [Nat.mod_eq_of_lt (by omega)]
    refine ⟨n / block + 1, ?_⟩
    rw [Nat.mul_add, Nat.mul_one]
    omega

/-- The starts of the blocks of a padded message. -/
def blockStarts (block size : Nat) : List Nat := (List.range (size / block)).map (block * ·)

end ImageTriage.Digest
