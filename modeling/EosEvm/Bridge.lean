import EosEvm.BridgeCore
import EosEvm.Lib.Abi

/-! The decoder of bridge messages against the ABI. It undoes the encoding, and what it
accepts for a canonical account is what a decoder that follows the offsets reads. -/

namespace EosEvm.Bridge

open Abort Words

theorem read_ok (size : Nat) (stream : Bytes) (result : Bytes × Bytes) :
    read size stream = .ok result ↔ size ≤ stream.length ∧ result = (stream.take size, stream.drop size) := by
  simp only [read, bind_ok, check_ok, exists_const, pure_ok]
  exact and_congr_right fun _ => eq_comm

theorem readUint256_ok (stream : Bytes) (result : Nat × Bytes) :
    readUint256 stream = .ok result ↔
      32 ≤ stream.length ∧ result = (Abi.number (stream.take 32), stream.drop 32) := by
  simp only [readUint256, bind_ok, read_ok, pure_ok]
  constructor
  · rintro ⟨_, ⟨long, rfl⟩, rfl⟩
    exact ⟨long, rfl⟩
  · rintro ⟨long, rfl⟩
    exact ⟨_, ⟨long, rfl⟩, rfl⟩

def roundedSize (length : Nat) : Nat := u32 (length + 31) / 32 * 32

theorem roundedSize_of_lt {length : Nat} (small : length + 31 < 2 ^ 32) : roundedSize length = Abi.padded length := by
  rw [roundedSize, u32_of_lt small, Abi.padded]

theorem resize_ok (limit : Nat) (bytes : Bytes) (size : Nat) (field : Bytes) :
    resize limit bytes size = .ok field ↔
      size ≤ limit ∧ field = bytes.take size ++ List.replicate (size - bytes.length) 0 := by
  simp only [resize, bind_ok, check_ok, exists_const, pure_ok]
  exact and_congr_right fun _ => eq_comm

theorem resize_of_le {limit size : Nat} {bytes : Bytes} (fits : size ≤ limit) (long : size ≤ bytes.length) :
    resize limit bytes size = .ok (bytes.take size) := by
  rw [resize_ok, Nat.sub_eq_zero_of_le long, List.replicate_zero, List.append_nil]
  exact ⟨fits, rfl⟩

theorem readDynamic_ok {limit : Nat} (small : limit + 31 < 2 ^ 32) {stream : Bytes} {result : Bytes × Bytes}
    (accepted : readDynamic limit stream = .ok result) :
    32 ≤ stream.length ∧ Abi.number (stream.take 32) ≤ limit ∧
      32 + Abi.padded (Abi.number (stream.take 32)) ≤ stream.length ∧
      result = ((stream.drop 32).take (Abi.number (stream.take 32)),
        stream.drop (32 + Abi.padded (Abi.number (stream.take 32)))) := by
  simp only [readDynamic, getLength, bind_ok, readUint256_ok, check_ok, exists_const, pure_ok, read_ok, resize_ok]
    at accepted
  obtain ⟨_, ⟨_, ⟨long, rfl⟩, _, rfl⟩, _, _, _, ⟨inside, rfl⟩, _, ⟨fits, rfl⟩, rfl⟩ := accepted
  dsimp only at inside fits ⊢
  have rounds : u32 (Abi.number (stream.take 32) + 31) / 32 * 32 = Abi.padded (Abi.number (stream.take 32)) :=
    roundedSize_of_lt (by omega)
  rw [rounds] at inside ⊢
  have covers := Abi.le_padded (Abi.number (stream.take 32))
  have length : ((stream.drop 32).take (Abi.padded (Abi.number (stream.take 32)))).length =
      Abi.padded (Abi.number (stream.take 32)) := by
    rw [List.length_take]
    omega
  rw [List.length_drop] at inside
  refine ⟨long, fits, by omega, ?_⟩
  rw [length, Nat.sub_eq_zero_of_le covers, List.replicate_zero, List.append_nil, List.take_take,
    Nat.min_eq_left covers, List.drop_drop]

theorem readUint256_digits (value : Nat) (small : value < 2 ^ 256) (rest : Bytes) :
    readUint256 (Abi.digits 32 value ++ rest) = .ok (value, rest) := by
  rw [readUint256_ok]
  have size := Abi.length_digits 32 value
  refine ⟨?_, ?_⟩
  · rw [List.length_append, size]
    omega
  · rw [List.take_left' size, List.drop_left' size, Abi.number_digits 32 value (lt_of_lt_of_eq small (by norm_num))]

theorem readDynamic_encodeDynamic {limit : Nat} {bytes padding : Bytes} (small : bytes.length + 31 < 2 ^ 32)
    (fills : bytes.length + padding.length = Abi.padded bytes.length) (fits : Abi.padded bytes.length ≤ limit)
    (rest : Bytes) : readDynamic limit (Abi.encodeDynamic bytes padding ++ rest) = .ok (bytes, rest) := by
  have shape : Abi.encodeDynamic bytes padding ++ rest =
      Abi.digits 32 bytes.length ++ ((bytes ++ padding) ++ rest) := by
    simp only [Abi.encodeDynamic, List.append_assoc]
  have size : (bytes ++ padding).length = roundedSize bytes.length := by
    rw [roundedSize_of_lt small, List.length_append, fills]
  have length : getLength (Abi.digits 32 bytes.length ++ ((bytes ++ padding) ++ rest)) =
      .ok (bytes.length, (bytes ++ padding) ++ rest) := by
    rw [getLength, readUint256_digits _ (by omega), ok_bind, (check_ok _ _ ()).mpr (by omega), ok_bind]
    rfl
  have room : resize limit [] (roundedSize bytes.length) = .ok (List.replicate (roundedSize bytes.length) 0) := by
    rw [resize_ok, roundedSize_of_lt small]
    exact ⟨fits, by simp⟩
  have field : read (roundedSize bytes.length) ((bytes ++ padding) ++ rest) = .ok (bytes ++ padding, rest) := by
    rw [read_ok, List.take_left' size, List.drop_left' size]
    refine ⟨?_, rfl⟩
    rw [List.length_append, size]
    omega
  have covers := Abi.le_padded bytes.length
  rw [shape, readDynamic, length, ok_bind]
  dsimp only
  rw [show u32 (bytes.length + 31) / 32 * 32 = roundedSize bytes.length from rfl, room, ok_bind, field, ok_bind]
  dsimp only
  rw [resize_of_le (covers.trans fits) (by simp), List.take_left' rfl]
  rfl

/-- Decoding undoes the encoding, whatever the padding and whatever follows, for every message
that is no longer than a vector of bytes may be. -/
theorem decodeMessage_encode (limit : Nat) (account : Bytes) (forceAtomic : Bool)
    (data accountPadding dataPadding trailing : Bytes) (named : 1 ≤ account.length ∧ account.length ≤ 32)
    (small : data.length < 2 ^ 32 - 31) (accountFills : account.length + accountPadding.length = Abi.padded account.length)
    (dataFills : data.length + dataPadding.length = Abi.padded data.length)
    (received : (messageV0Id ++ Abi.encode account forceAtomic data accountPadding dataPadding ++ trailing).length ≤
      limit) :
    decodeMessage limit (messageV0Id ++ Abi.encode account forceAtomic data accountPadding dataPadding ++ trailing) =
      .ok (some { account := account, forceAtomic := forceAtomic, data := data }) := by
  have word : Abi.padded account.length = 32 := by
    unfold Abi.padded
    omega
  have flag : forceAtomic.toNat ≤ 1 := Bool.toNat_le forceAtomic
  have fits : 32 ≤ limit ∧ Abi.padded data.length ≤ limit := by
    simp only [Abi.encode, Abi.encodeDynamic, List.length_append, Abi.length_digits] at received
    omega
  have payload : decodeMessageV0 limit (Abi.encode account forceAtomic data accountPadding dataPadding ++ trailing) =
      .ok { account := account, forceAtomic := forceAtomic, data := data } := by
    simp only [decodeMessageV0, Abi.encode, List.append_assoc, word]
    rw [readUint256_digits 96 (by norm_num), ok_bind, (check_ok _ _ ()).mpr rfl, ok_bind,
      readUint256_digits _ (by omega), ok_bind, (check_ok _ _ ()).mpr flag, ok_bind,
      readUint256_digits (96 + 32 + 32) (by norm_num), ok_bind, (check_ok _ _ ()).mpr rfl, ok_bind,
      readDynamic_encodeDynamic (by omega) accountFills (word ▸ fits.1), ok_bind,
      readDynamic_encodeDynamic (by omega) dataFills fits.2, ok_bind]
    cases forceAtomic <;> rfl
  have selector : read 4 (messageV0Id ++ (Abi.encode account forceAtomic data accountPadding dataPadding ++ trailing)) =
      .ok (messageV0Id, Abi.encode account forceAtomic data accountPadding dataPadding ++ trailing) :=
    (read_ok 4 _ _).mpr ⟨by simp [messageV0Id], rfl⟩
  rw [decodeMessage, List.append_assoc, selector, ok_bind, if_pos rfl, payload, ok_bind]
  rfl

theorem decodeMessage_encode_alice :
    decodeMessage maxSize (messageV0Id ++ Abi.encode (bytesOf "alice") true [1, 2, 3] (List.replicate 27 7)
        (List.replicate 29 9) ++ [5]) = .ok (some { account := bytesOf "alice", forceAtomic := true, data := [1, 2, 3] }) :=
  decodeMessage_encode maxSize (bytesOf "alice") true [1, 2, 3] (List.replicate 27 7) (List.replicate 29 9) [5]
    (by decide) (by decide) (by decide) (by decide) (by decide +kernel)

theorem readDynamic_at {limit : Nat} (small : limit + 31 < 2 ^ 32) {payload bytes rest : Bytes} {offset : Nat}
    (accepted : readDynamic limit (payload.drop offset) = .ok (bytes, rest)) :
    bytes.length ≤ limit ∧ Abi.dynamicAt payload offset = some bytes ∧
      offset + 32 + Abi.padded bytes.length ≤ payload.length ∧
      rest = payload.drop (offset + 32 + Abi.padded bytes.length) := by
  obtain ⟨long, fits, inside, result⟩ := readDynamic_ok small accepted
  obtain ⟨field, remaining⟩ := Prod.mk.inj result
  have covers := Abi.le_padded (Abi.number ((payload.drop offset).take 32))
  have length : Abi.number ((payload.drop offset).take 32) = bytes.length := by
    rw [field, List.length_take, List.length_drop]
    omega
  rw [length] at field remaining inside fits covers
  rw [List.length_drop] at long inside
  refine ⟨fits, ?_, by omega, ?_⟩
  · have word : Abi.wordAt payload offset = some bytes.length := by
      rw [Abi.wordAt_eq (by omega), length]
    rw [Abi.dynamicAt_eq word (by omega)]
    rw [List.drop_drop] at field
    exact congrArg some field.symm
  · rw [remaining, List.drop_drop, ← Nat.add_assoc]

theorem decodeMessage_ok {limit : Nat} {message : Bytes} {decoded : MessageV0}
    (accepted : decodeMessage limit message = .ok (some decoded)) :
    4 + 96 ≤ message.length ∧ Abi.wordAt (message.drop 4) 0 = some 96 ∧
      Abi.flagAt (message.drop 4) 32 = some decoded.forceAtomic ∧ Abi.wordAt (message.drop 4) 64 = some 160 ∧
      ∃ middle rest, readDynamic limit ((message.drop 4).drop 96) = .ok (decoded.account, middle) ∧
        readDynamic limit middle = .ok (decoded.data, rest) := by
  simp only [decodeMessage, bind_ok, read_ok] at accepted
  obtain ⟨_, ⟨_, rfl⟩, accepted⟩ := accepted
  split at accepted
  · simp only [decodeMessageV0, bind_ok, pure_ok, readUint256_ok, check_ok, exists_const, Option.some.injEq] at accepted
    obtain ⟨_, ⟨_, ⟨first, rfl⟩, offset1, _, ⟨second, rfl⟩, value2, _, ⟨third, rfl⟩, offset3, account, readAccount, data,
      readData, rfl⟩, rfl⟩ := accepted
    dsimp only at *
    simp only [List.drop_drop, List.length_drop] at *
    refine ⟨by omega, ?_, ?_, ?_, account.2, data.2, readAccount, readData⟩
    · rw [Abi.wordAt_eq (by rw [List.length_drop]; omega), List.drop_drop, Nat.add_zero, offset1]
    · have word : Abi.wordAt (message.drop 4) 32 = some (Abi.number ((message.drop (4 + 32)).take 32)) := by
        rw [Abi.wordAt_eq (by rw [List.length_drop]; omega), List.drop_drop]
      rw [Abi.flagAt, word]
      obtain zero | one := Nat.le_one_iff_eq_zero_or_eq_one.mp value2
      · rw [zero]
        rfl
      · rw [one]
        rfl
    · rw [Abi.wordAt_eq (by rw [List.length_drop]; omega), List.drop_drop, offset3]
  · cases accepted

/-- A message is long enough for both padded fields, a decoder that follows the offsets reads
the same from it, all bytes are bytes of the message, and no rounded length wrapped. -/
structure Sound (message : Bytes) (decoded : MessageV0) : Prop where
  long : 4 + 96 + (32 + Abi.padded decoded.account.length) + (32 + Abi.padded decoded.data.length) ≤ message.length
  reads : Abi.decode (message.drop 4) = some (decoded.account, decoded.forceAtomic, decoded.data)
  account : ∀ byte ∈ decoded.account, byte ∈ message
  data : ∀ byte ∈ decoded.data, byte ∈ message
  accountRounds : u32 (decoded.account.length + 31) = decoded.account.length + 31
  dataRounds : u32 (decoded.data.length + 31) = decoded.data.length + 31

theorem mem_of_dynamicAt {payload bytes : List UInt8} {offset : Nat} (found : Abi.dynamicAt payload offset = some bytes) :
    ∀ byte ∈ bytes, byte ∈ payload := by
  intro byte member
  simp only [Abi.dynamicAt] at found
  split at found
  · split at found
    · obtain rfl := Option.some.inj found
      exact List.mem_of_mem_drop (List.mem_of_mem_take member)
    · cases found
  · cases found

/-- What is accepted with a canonical account is sound. -/
theorem decodeMessage_sound (message : Bytes) (decoded : MessageV0) (name : Name)
    (accepted : decodeMessage maxSize message = .ok (some decoded)) (nonempty : decoded.account ≠ [])
    (canonical : decoded.getAccountAsName = .ok name) : Sound message decoded := by
  have limited : maxSize + 31 < 2 ^ 32 := by decide
  obtain ⟨_, offset1, flag, offset3, middle, rest, readAccount, readData⟩ := decodeMessage_ok accepted
  have short : decoded.account.length ≤ 13 := by
    simp only [MessageV0.getAccountAsName, nameOf, bind_ok, check_ok, exists_const] at canonical
    obtain ⟨_, ⟨bound, _⟩, _⟩ := canonical
    exact bound
  have positive : 0 < decoded.account.length := List.length_pos_iff.mpr nonempty
  -- the head says that the data stand after one word of text, which a canonical account fills
  have word : Abi.padded decoded.account.length = 32 := by
    unfold Abi.padded
    omega
  obtain ⟨_, account, accountInside, rfl⟩ := readDynamic_at limited readAccount
  rw [word] at accountInside readData
  obtain ⟨small, data, dataInside, _⟩ := readDynamic_at limited readData
  rw [List.length_drop] at accountInside dataInside
  refine ⟨?_, ?_, ?_, ?_, u32_of_lt (by omega), u32_of_lt (by omega)⟩
  · rw [word]
    omega
  · simp only [Abi.decode, offset1, account, flag, offset3, Option.bind_eq_bind, Option.bind_some]
    rw [data]
    rfl
  · exact fun byte member => List.mem_of_mem_drop (mem_of_dynamicAt account byte member)
  · exact fun byte member => List.mem_of_mem_drop (mem_of_dynamicAt data byte member)

/-- A message to an account whose data claims to be almost `2 ^ 32` bytes long is refused, although
the rounded length wraps to zero. -/
example : decodeMessage maxSize (messageV0Id ++ (Abi.digits 32 96 ++ (Abi.digits 32 0 ++ (Abi.digits 32 160 ++
    (Abi.encodeDynamic (bytesOf "alice") (List.replicate 27 0) ++ Abi.digits 32 (2 ^ 32 - 2)))))) =
      .error "length_error" := by decide +kernel

/-- A message to an account with three bytes of data is sound. -/
theorem decodeMessage_sound_alice : ∃ message decoded, decodeMessage maxSize message = .ok (some decoded) ∧
    decoded.data = [1, 2, 3] ∧ Sound message decoded := by
  obtain ⟨decoded, accepted, seen⟩ := exists_of_view
    (decodeMessage maxSize (messageV0Id ++ Abi.encode (bytesOf "alice") true [1, 2, 3] (List.replicate 27 7)
      (List.replicate 29 9)))
    (fun decoded => decoded.map fun decoded => (decoded.data, decoded.account, decoded.getAccountAsName.isOk))
    (some ([1, 2, 3], bytesOf "alice", true)) (by decide +kernel)
  obtain ⟨message, rfl, fields⟩ := Option.map_eq_some_iff.mp seen
  obtain ⟨data, account, named⟩ : message.data = [1, 2, 3] ∧ message.account = bytesOf "alice" ∧
      message.getAccountAsName.isOk = true := by simpa using fields
  obtain ⟨name, canonical⟩ := exists_of_isOk named
  exact ⟨_, message, accepted, data, decodeMessage_sound _ message name accepted (by rw [account]; decide) canonical⟩

end EosEvm.Bridge
