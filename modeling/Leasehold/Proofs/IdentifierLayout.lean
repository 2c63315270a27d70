import Leasehold.Ident
import Leasehold.Proofs.Octets

/-!
# Proofs.IdentifierLayout — what an identifier is made of

An identifier is a row of octets in which every part has a field of its own, so what
fits in a field can be read from it again, and two identifiers are alike just if what
fits of each of their parts is. Counters have fields of 24 bits, but for those of
sessions, which have 32.

* `ClientId.octets_ofParts`, `StateKey.octets_ofParts`, `SessionId.octets_ofParts` — the
  three layouts;
* `StateKey.kindIn?_octets` and its like — what is read from octets is what the parts of an
  identifier say;
* `ClientId.encode_octets` and its like — identifiers are shown as the digits of their
  octets;
* `ClientIds.nth_eq_iff` — what two sources hand out is alike just if they bear the same
  marks and their counters agree in 24 bits;
* `identifiers_faithful` — all of this of the identifiers that a server makes.
-/

namespace Leasehold

/-- A word keeps the low 24 bits of the number that it is made of. -/
theorem lowBits_ofNat (n : Nat) : (UInt32.ofNat n).toNat % 0x100_0000 = n % 0x100_0000 := by
  rw [UInt32.toNat_ofNat']
  omega

/-- A counter that wraps in 32 bits counts on in the low 24 of them. -/
theorem lowBits_add (word : UInt32) (n : Nat) :
    (word + UInt32.ofNat n).toNat % 0x100_0000 = (word.toNat + n) % 0x100_0000 := by
  rw [UInt32.toNat_add, UInt32.toNat_ofNat']
  omega

/-! ## Clients -/

namespace ClientId

variable {id id' : ClientId} {bootSeconds bootSeconds' : UInt32} {instanceId instanceId' : UInt8}
  {counter counter' : UInt32}

/-- The eight octets of an identifier. -/
def octets (id : ClientId) : Bytes := Octets.ofNat 8 id.value.toNat

/-- The identifier that eight octets write. -/
def ofOctets (bytes : Bytes) : ClientId := ⟨.ofNat (Octets.toNat bytes)⟩

/-- The client whose octets lead those of a longer identifier. -/
def leading (bytes : Bytes) : ClientId := ofOctets (bytes.take 8)

@[simp] theorem length_octets (id : ClientId) : id.octets.length = 8 := Octets.length_ofNat ..

/-- An identifier is read back from its octets. -/
theorem ofOctets_octets (id : ClientId) : ofOctets id.octets = id := by
  have hvalue : Octets.toNat id.octets = id.value.toNat := by
    rw [octets, Octets.toNat_ofNat]
    exact Nat.mod_eq_of_lt id.value.toNat_lt
  rw [ofOctets, hvalue, UInt64.ofNat_toNat]

/-- Whatever follows the octets of a client's identifier, they lead back to the client. -/
theorem leading_append (id : ClientId) (rest : Bytes) : leading (id.octets ++ rest) = id := by
  rw [leading, List.take_left' id.length_octets, ofOctets_octets]

/-- Two identifiers of the same octets are one. -/
theorem octets_inj : id.octets = id'.octets ↔ id = id' := by
  refine ⟨fun h => ?_, fun h => h ▸ rfl⟩
  rw [← ofOctets_octets id, h, ofOctets_octets]

/-- An identifier is shown as the digits of its octets. -/
theorem encode_octets (id : ClientId) : Text.Hex.encode id.octets = id.toText :=
  Octets.encode_ofNat id.value.toNat_lt

/-- The second at which the instance started that issued an identifier, and its number. -/
def marks (id : ClientId) : UInt32 × UInt8 := (id.bootSeconds, id.instanceId)

/-- The parts stand side by side in the number, the counter in the lowest twenty-four bits. -/
theorem toNat_value_ofParts (bootSeconds : UInt32) (instanceId : UInt8) (counter : UInt32) :
    (ofParts bootSeconds instanceId counter).value.toNat =
      bootSeconds.toNat * 0x1_0000_0000 + instanceId.toNat * 0x100_0000
        + counter.toNat % 0x100_0000 := by
  have hboot := bootSeconds.toNat_lt
  have hinstance := instanceId.toNat_lt
  unfold ofParts
  rw [UInt64.toNat_ofNat']
  omega

/-- The marks of an identifier are those it was laid out from. -/
theorem marks_ofParts (bootSeconds : UInt32) (instanceId : UInt8) (counter : UInt32) :
    (ofParts bootSeconds instanceId counter).marks = (bootSeconds, instanceId) := by
  have hinstance := instanceId.toNat_lt
  have hvalue := toNat_value_ofParts bootSeconds instanceId counter
  have hbootSeconds : (ofParts bootSeconds instanceId counter).value.toNat / 0x1_0000_0000 =
      bootSeconds.toNat := by omega
  have hinstanceId : (ofParts bootSeconds instanceId counter).value.toNat / 0x100_0000 % 0x100 =
      instanceId.toNat := by omega
  unfold marks ClientId.bootSeconds ClientId.instanceId
  rw [hbootSeconds, hinstanceId, UInt32.ofNat_toNat, UInt8.ofNat_toNat]

/-- The boot second has four octets, the instance one and the counter three. -/
theorem octets_ofParts (bootSeconds : UInt32) (instanceId : UInt8) (counter : UInt32) :
    (ofParts bootSeconds instanceId counter).octets =
      Octets.ofNat 4 bootSeconds.toNat ++ (instanceId :: Octets.ofNat 3 counter.toNat) := by
  have hinstance := instanceId.toNat_lt
  obtain ⟨value, hvalue⟩ : ∃ value, value = (ofParts bootSeconds instanceId counter).value.toNat :=
    ⟨_, rfl⟩
  have hparts := hvalue.trans (toNat_value_ofParts bootSeconds instanceId counter)
  -- the number is cut at the borders of its parts, from the highest down
  have hboot : value / Nat.pow 256 4 = bootSeconds.toNat := by
    show value / 0x1_0000_0000 = _
    omega
  have hinstanceId : Octets.ofNat 1 (value / Nat.pow 256 3) = [instanceId] := by
    have hlow : UInt8.ofNat (value / Nat.pow 256 3) = instanceId := by
      rw [UInt8.ofNat_eq_iff_mod_eq_toNat]
      show value / 0x100_0000 % 0x100 = _
      omega
    rw [Octets.ofNat_succ, hlow]
    rfl
  have hcounter : Octets.ofNat 3 value = Octets.ofNat 3 counter.toNat := by
    rw [Octets.ofNat_eq_iff]
    show value % 0x100_0000 = counter.toNat % 0x100_0000
    omega
  calc (ofParts bootSeconds instanceId counter).octets
    _ = Octets.ofNat 4 (value / Nat.pow 256 4) ++ Octets.ofNat (1 + 3) value := by
      rw [octets, ← hvalue]
      exact Octets.ofNat_add 4 4 value
    _ = Octets.ofNat 4 bootSeconds.toNat ++ ([instanceId] ++ Octets.ofNat 3 counter.toNat) := by
      rw [hboot, Octets.ofNat_add, hinstanceId, hcounter]

/-- Identifiers are alike just if they bear the same marks and their counters agree in 24 bits. -/
theorem ofParts_eq_iff : ofParts bootSeconds instanceId counter =
      ofParts bootSeconds' instanceId' counter' ↔
    (bootSeconds, instanceId) = (bootSeconds', instanceId') ∧
      counter.toNat % 0x100_0000 = counter'.toNat % 0x100_0000 := by
  constructor
  · intro h
    have hmarks := congrArg marks h
    rw [marks_ofParts, marks_ofParts] at hmarks
    have hoctets := congrArg octets h
    rw [octets_ofParts, octets_ofParts] at hoctets
    -- the fields before the counter are of one length
    obtain ⟨-, htail⟩ := List.append_inj hoctets (by simp)
    exact ⟨hmarks, Octets.ofNat_eq_iff.1 (List.cons.inj htail).2⟩
  · rintro ⟨hmarks, hcounter⟩
    obtain ⟨rfl, rfl⟩ := Prod.mk.inj hmarks
    unfold ofParts
    rw [hcounter]

end ClientId

/-! ## Sources of identifiers -/

namespace ClientIds

variable {g h : ClientIds}

/-- The marks that the identifiers of a source bear. -/
def marks (g : ClientIds) : UInt32 × UInt8 := (g.bootSeconds, g.instanceId)

/-- The identifier that a source hands out after so many others. -/
def nth : Nat → ClientIds → ClientId
  | 0, g => g.next.1
  | n + 1, g => nth n g.next.2

/-- A source knows its identifiers by their marks. -/
theorem hasIssued_iff (g : ClientIds) (id : ClientId) :
    g.hasIssued id = true ↔ id.marks = g.marks := by
  unfold hasIssued ClientId.marks marks
  rw [Bool.and_eq_true, beq_iff_eq, beq_iff_eq, Prod.mk.injEq]

/-- The identifiers that a source hands out are numbered on from those it handed out before. -/
theorem nth_eq (g : ClientIds) (n : Nat) :
    g.nth n = ClientId.ofParts g.bootSeconds g.instanceId (g.issued + UInt32.ofNat (n + 1)) := by
  induction n generalizing g with
  | zero => rfl
  | succ n ih =>
    have hsum : g.issued + 1 + UInt32.ofNat (n + 1) = g.issued + UInt32.ofNat (n + 1 + 1) := by
      rw [UInt32.ofNat_add (n + 1) 1, UInt32.add_comm (UInt32.ofNat (n + 1)), UInt32.add_assoc]
      rfl
    rw [nth, ih]
    exact congrArg (ClientId.ofParts g.bootSeconds g.instanceId) hsum

/-- So many identifiers in a row are the first so many. -/
theorem take_eq_map (n : Nat) (g : ClientIds) :
    g.take n = (List.range n).map fun i => g.nth i := by
  -- on how many are taken, the source being the next one each time
  induction n generalizing g with
  | zero => rfl
  | succ n ih =>
    rw [take, ih, List.range_succ_eq_map, List.map_cons, List.map_map]
    rfl

/-- All identifiers of a source bear its marks. -/
theorem marks_nth (g : ClientIds) (n : Nat) : (g.nth n).marks = g.marks := by
  rw [nth_eq]
  exact ClientId.marks_ofParts ..

/-- What two sources hand out is alike just if they bear the same marks and their counters agree in
24 bits by then. -/
theorem nth_eq_iff {i j : Nat} : g.nth i = h.nth j ↔
    g.marks = h.marks ∧ (g.issued.toNat + i) % 0x100_0000 = (h.issued.toNat + j) % 0x100_0000 := by
  rw [nth_eq, nth_eq, ClientId.ofParts_eq_iff, lowBits_add, lowBits_add]
  refine and_congr_right fun _ => ?_
  omega

end ClientIds

/-! ## States -/

/-- Kinds have tags of their own. -/
theorem StateKind.tag_inj {kind kind' : StateKind} : kind.tag = kind'.tag ↔ kind = kind' := by
  refine ⟨fun h => ?_, fun h => h ▸ rfl⟩
  have hread := congrArg StateKind.ofTag? h
  rw [StateKind.ofTag?_tag, StateKind.ofTag?_tag] at hread
  exact Option.some.inj hread

namespace StateKey

variable {client client' : ClientId} {counter counter' : UInt32} {kind kind' : StateKind}

/-- The twelve octets of a key. -/
def octets (key : StateKey) : Bytes := key.client.octets ++ Octets.ofNat 4 key.tail.toNat

/-- The kind that the last of twelve octets stands for. -/
def kindIn? (bytes : Bytes) : Option StateKind := bytes[11]?.bind StateKind.ofTag?

/-- The client is read off the first octets of a key. -/
theorem leading_octets (key : StateKey) : ClientId.leading key.octets = key.client :=
  ClientId.leading_append ..

theorem kindIn?_concat {bytes : Bytes} (h : bytes.length = 11) (last : UInt8) :
    kindIn? (bytes ++ [last]) = StateKind.ofTag? last := by
  have hlast : (bytes ++ [last])[11]? = some last := h ▸ List.getElem?_concat_length
  rw [kindIn?, hlast]
  rfl

/-- The kind is read off the last octet of a key. -/
theorem kindIn?_octets (key : StateKey) : kindIn? key.octets = key.kind? := by
  have hlow : UInt8.ofNat key.tail.toNat = UInt8.ofNat (key.tail.toNat % 0x100) :=
    UInt8.ofNat_mod_size.symm
  rw [octets, Octets.ofNat_succ, ← List.append_assoc, kindIn?_concat (by simp), hlow]
  rfl

/-- A key is shown as the digits of its octets. -/
theorem encode_octets (key : StateKey) : Text.Hex.encode key.octets = key.toText := by
  rw [octets, Text.Hex.encode_append, ClientId.encode_octets,
    Octets.encode_ofNat key.tail.toNat_lt]
  rfl

theorem toNat_tail_ofParts (client : ClientId) (counter : UInt32) (kind : StateKind) :
    (ofParts client counter kind).tail.toNat =
      counter.toNat % 0x100_0000 * 0x100 + kind.tag.toNat := by
  have hkind := kind.tag.toNat_lt
  unfold ofParts
  rw [UInt32.toNat_ofNat_of_lt']
  unfold UInt32.size
  omega

/-- The counter has three octets and the kind one. -/
theorem octets_ofParts (client : ClientId) (counter : UInt32) (kind : StateKind) :
    (ofParts client counter kind).octets =
      client.octets ++ (Octets.ofNat 3 counter.toNat ++ [kind.tag]) := by
  have hkind := kind.tag.toNat_lt
  have htail := toNat_tail_ofParts client counter kind
  have hcounter : Octets.ofNat 3 ((ofParts client counter kind).tail.toNat / 256) =
      Octets.ofNat 3 counter.toNat := by
    rw [Octets.ofNat_eq_iff]
    show _ % 0x100_0000 = counter.toNat % 0x100_0000
    omega
  have htag : UInt8.ofNat (ofParts client counter kind).tail.toNat = kind.tag := by
    rw [UInt8.ofNat_eq_iff_mod_eq_toNat]
    omega
  rw [octets, Octets.ofNat_succ, hcounter, htag]
  rfl

/-- The kind that a key was made with is the kind that it tells. -/
theorem kind?_ofParts (client : ClientId) (counter : UInt32) (kind : StateKind) :
    (ofParts client counter kind).kind? = some kind := by
  rw [← kindIn?_octets, octets_ofParts, ← List.append_assoc, kindIn?_concat (by simp),
    StateKind.ofTag?_tag]

/-- The octets of two keys are alike just if client and kind are and the counters agree in 24
bits. -/
theorem octets_ofParts_eq_iff :
    (ofParts client counter kind).octets = (ofParts client' counter' kind').octets ↔
      client = client' ∧ kind = kind' ∧
        counter.toNat % 0x100_0000 = counter'.toNat % 0x100_0000 := by
  rw [octets_ofParts, octets_ofParts]
  constructor
  · intro h
    obtain ⟨hclient, hrest⟩ := List.append_inj h (by simp)
    obtain ⟨hcounter, htag⟩ := List.append_inj hrest (by simp)
    exact ⟨ClientId.octets_inj.1 hclient, StateKind.tag_inj.1 (List.singleton_inj.1 htag),
      Octets.ofNat_eq_iff.1 hcounter⟩
  · rintro ⟨rfl, rfl, hcounter⟩
    rw [Octets.ofNat_eq_iff.2 hcounter]

/-- Keys are the same if client and kind are, and the counters but for what comes round. -/
theorem ofParts_eq_iff : ofParts client counter kind = ofParts client' counter' kind' ↔
    client = client' ∧ kind = kind' ∧
      counter.toNat % 0x100_0000 = counter'.toNat % 0x100_0000 := by
  refine ⟨fun h => octets_ofParts_eq_iff.1 (congrArg octets h), ?_⟩
  rintro ⟨rfl, rfl, hcounter⟩
  unfold ofParts
  rw [hcounter]

end StateKey

/-! ## Sessions -/

namespace SessionId

variable {client client' : ClientId} {counter counter' : UInt32}

/-- The sixteen octets of an identifier. -/
def octets (id : SessionId) : Bytes :=
  id.client.octets ++ (Octets.ofNat 4 id.filler.toNat ++ Octets.ofNat 4 id.counter.toNat)

theorem leading_octets (id : SessionId) : ClientId.leading id.octets = id.client :=
  ClientId.leading_append ..

/-- An identifier is shown as the digits of its octets. -/
theorem encode_octets (id : SessionId) : Text.Hex.encode id.octets = id.toText := by
  rw [octets, Text.Hex.encode_append, Text.Hex.encode_append, ClientId.encode_octets,
    Octets.encode_ofNat id.filler.toNat_lt, Octets.encode_ofNat id.counter.toNat_lt,
    ← String.append_assoc]
  rfl

/-- Four octets are zero, and the counter has four. -/
theorem octets_ofParts (client : ClientId) (counter : UInt32) :
    (ofParts client counter).octets =
      client.octets ++ ([0, 0, 0, 0] ++ Octets.ofNat 4 counter.toNat) := by
  have hfiller : Octets.ofNat 4 (0 : UInt32).toNat = [0, 0, 0, 0] := by decide
  rw [octets, ← hfiller]
  rfl

/-- Of a counter of more than 24 bits, a state keeps the low ones and a session keeps all. -/
example :
    (StateKey.ofParts ⟨0x0102_0304_0506_0708⟩ 0x01ab_cdef .byteLock).octets =
      [1, 2, 3, 4, 5, 6, 7, 8, 0xab, 0xcd, 0xef, 2] ∧
    (ofParts ⟨0x0102_0304_0506_0708⟩ 0x01ab_cdef).octets =
      [1, 2, 3, 4, 5, 6, 7, 8, 0, 0, 0, 0, 1, 0xab, 0xcd, 0xef] := by
  decide +kernel

/-- The octets of two identifiers are alike just if client and counter are. -/
theorem octets_ofParts_eq_iff : (ofParts client counter).octets = (ofParts client' counter').octets ↔
    client = client' ∧ counter = counter' := by
  rw [octets_ofParts, octets_ofParts]
  constructor
  · intro h
    obtain ⟨hclient, hrest⟩ := List.append_inj h (by simp)
    have hcounter := Octets.ofNat_eq_iff.1 (List.append_cancel_left hrest)
    have hlt : counter.toNat < Nat.pow 256 4 := counter.toNat_lt
    have hlt' : counter'.toNat < Nat.pow 256 4 := counter'.toNat_lt
    rw [Nat.mod_eq_of_lt hlt, Nat.mod_eq_of_lt hlt'] at hcounter
    exact ⟨ClientId.octets_inj.1 hclient, UInt32.toNat_inj.1 hcounter⟩
  · rintro ⟨rfl, rfl⟩
    rfl

end SessionId

/-! ## Faithful identifiers -/

/-- Whatever an identifier is made of, the client and the kind are read from its octets again, and
the octets are those that are shown. The identifiers of two states have the same octets just if
client and kind are the same and the counters agree in 24 bits, those of two sessions just if client
and counter are the same. What a source of client identifiers hands out comes round after 2^24
identifiers and no sooner, wherever its counter stands; the source knows all of it, and shares none
of it with a source that bears other marks. -/
theorem identifiers_faithful :
    (∀ client counter kind,
      let key := (StateId.ofParts client counter kind).key
      (ClientId.leading key.octets = key.client ∧ key.client = client) ∧
        (StateKey.kindIn? key.octets = key.kind? ∧ key.kind? = some kind) ∧
        Text.Hex.encode key.octets = key.toText) ∧
    (∀ client counter,
      let id := SessionId.ofParts client counter
      (ClientId.leading id.octets = id.client ∧ id.client = client) ∧
        Text.Hex.encode id.octets = id.toText) ∧
    (∀ client counter kind client' counter' kind',
      (StateId.ofParts client counter kind).key.octets =
          (StateId.ofParts client' counter' kind').key.octets ↔
        client = client' ∧ kind = kind' ∧
          counter.toNat % 0x100_0000 = counter'.toNat % 0x100_0000) ∧
    (∀ client counter client' counter',
      (SessionId.ofParts client counter).octets = (SessionId.ofParts client' counter').octets ↔
        client = client' ∧ counter = counter') ∧
    ∀ g : ClientIds,
      (∀ n, g.take n = (List.range n).map fun i => g.nth i) ∧
      (∀ i j, g.nth i = g.nth j ↔ i % 0x100_0000 = j % 0x100_0000) ∧
      (∀ i, g.hasIssued (g.nth i) = true) ∧
      ∀ h : ClientIds, (h.bootSeconds, h.instanceId) ≠ (g.bootSeconds, g.instanceId) →
        ∀ i j, g.nth i ≠ h.nth j ∧ g.hasIssued (h.nth j) = false := by
  refine ⟨fun client counter kind => ?_, fun client counter => ?_, fun _ _ _ _ _ _ => ?_,
    fun _ _ _ _ => SessionId.octets_ofParts_eq_iff, fun g => ⟨fun n => ?_, fun i j => ?_,
      fun i => ?_, fun h hmarks i j => ⟨fun heq => ?_, ?_⟩⟩⟩
  · intro key
    exact ⟨⟨key.leading_octets, rfl⟩,
      ⟨key.kindIn?_octets, StateKey.kind?_ofParts client counter kind⟩, key.encode_octets⟩
  · intro id
    exact ⟨⟨id.leading_octets, rfl⟩, id.encode_octets⟩
  · exact StateKey.octets_ofParts_eq_iff
  · exact g.take_eq_map n
  · rw [ClientIds.nth_eq_iff, and_iff_right rfl]
    omega
  · exact (g.hasIssued_iff _).2 (g.marks_nth i)
  · exact hmarks (ClientIds.nth_eq_iff.1 heq).1.symm
  · rw [← Bool.not_eq_true, ClientIds.hasIssued_iff, ClientIds.marks_nth]
    exact hmarks

/-- Of two instances that started in one second, one has a counter that is about to wrap. It hands
out a counter of zero next, and another one again 2^32 identifiers later. The identifier between them
differs from the first one of the other instance in the instance alone. -/
theorem identifiers_faithful_across_wrap :
    let g : ClientIds := ⟨1000, 1, 0xffff_ffff⟩
    let h : ClientIds := ⟨1000, 2, 0⟩
    (h.bootSeconds, h.instanceId) ≠ (g.bootSeconds, g.instanceId) ∧
      g.nth 0 = ⟨0x3e8_0100_0000⟩ ∧ g.nth 0x1_0000_0000 = g.nth 0 ∧ g.nth 1 ≠ g.nth 0 ∧
      g.hasIssued (g.nth 1) = true ∧
      g.nth 1 = ⟨0x3e8_0100_0001⟩ ∧ h.nth 0 = ⟨0x3e8_0200_0001⟩ ∧ g.nth 1 ≠ h.nth 0 ∧
      g.hasIssued (h.nth 0) = false := by
  intro g h
  have hmarks : (h.bootSeconds, h.instanceId) ≠ (g.bootSeconds, g.instanceId) := by decide
  obtain ⟨-, -, -, -, hsources⟩ := identifiers_faithful
  obtain ⟨-, hround, hown, hother⟩ := hsources g
  obtain ⟨hdiffer, hforeign⟩ := hother h hmarks 1 0
  exact ⟨hmarks, by decide, (hround _ _).2 rfl, mt (hround _ _).1 (by decide), hown 1, by decide,
    by decide, hdiffer, hforeign⟩

end Leasehold
