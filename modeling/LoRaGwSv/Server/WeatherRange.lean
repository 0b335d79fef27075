import LoRaGwSv.Server.WeatherDevice

/-!
# Server/WeatherRange — which cells `ws_parse_data` touches (`weather_device.c`)

All arrays are as long as there are devices, and a sample has 30 bytes.  The one index that comes
from outside is the identifier in a sample, which the table of positions is read at.  It is let
through up to 66, where the table ends at 64: **parsing stays in range exactly if no device's last
sample names device 65 or 66** (`wsParse_inRange_iff`).
-/

namespace LoRaGwSv

open Wire

/-- A cell of an array that is read or written; `data_ptr` is that of `ws_data_buf[i]`,
`temp_data_ptr` that of the copy. -/
inductive WsAccess
  | ws_data_buf (i : ℕ)
  | data_ptr (i j : ℕ)
  | temp_ws_data_buf (i : ℕ)
  | temp_data_ptr (i j : ℕ)
  | ieee (i : ℕ)
  | gps_location (i j : ℕ)
  | ws_meta_data (i : ℕ)
deriving DecidableEq

/-- The cell lies in its array. -/
def WsAccess.InRange : WsAccess → Prop
  | .ws_data_buf i => i < wsNumberOfDevice
  | .data_ptr i j => i < wsNumberOfDevice ∧ j < wsMaxDataSize
  | .temp_ws_data_buf i => i < wsNumberOfDevice
  | .temp_data_ptr i j => i < wsNumberOfDevice ∧ j < wsMaxDataSize
  | .ieee i => i < 32
  | .gps_location i j => i < wsNumberOfDevice ∧ j < 2
  | .ws_meta_data i => i < wsNumberOfDevice

instance WsAccess.decidableInRange : ∀ a : WsAccess, Decidable a.InRange
  | .ws_data_buf i => inferInstanceAs (Decidable (i < wsNumberOfDevice))
  | .data_ptr i j => inferInstanceAs (Decidable (i < wsNumberOfDevice ∧ j < wsMaxDataSize))
  | .temp_ws_data_buf i => inferInstanceAs (Decidable (i < wsNumberOfDevice))
  | .temp_data_ptr i j => inferInstanceAs (Decidable (i < wsNumberOfDevice ∧ j < wsMaxDataSize))
  | .ieee i => inferInstanceAs (Decidable (i < 32))
  | .gps_location i j => inferInstanceAs (Decidable (i < wsNumberOfDevice ∧ j < 2))
  | .ws_meta_data i => inferInstanceAs (Decidable (i < wsNumberOfDevice))

/-- What the first loop touches of device `i`: the test stops at the first that fails. -/
def copyAccesses (i : ℕ) (buf : WsDataBuffer) : List WsAccess :=
  .ws_data_buf i ::
    if buf.loraNodeID = 0 then []
    else .data_ptr i 0 ::
      if byteAt buf.data_ptr 0 ≠ 0x24 then []
      else .temp_ws_data_buf i ::
        (List.range wsMaxDataSize).flatMap fun j => [.temp_data_ptr i j, .data_ptr i j]

/-- The accesses of `convertToFloatingPoint`: each bit is set, and read once. -/
def floatAccesses : List WsAccess :=
  (List.range 32).map (fun k => .ieee (31 - k)) ++ (List.range 23).map (fun k => .ieee (31 - k)) ++
    (List.range 8).map (fun k => .ieee (8 - k)) ++ [.ieee 0]

/-- What the second loop touches of device `i`. -/
def parseAccesses (i : ℕ) (temp : WsDataBuffer) : List WsAccess :=
  .temp_ws_data_buf i ::
    if temp.loraNodeID = 0 then []
    else .temp_data_ptr i 0 ::
      if byteAt temp.data_ptr 0 ≠ 0x24 then []
      else .temp_data_ptr i 1 ::
        if byteAt temp.data_ptr 1 = 255 then [.ws_meta_data i]
        else if wsNumberOfDevice + 1 < (byteAt temp.data_ptr 1).toNat then []
        else (List.range 12).map (fun k => .temp_data_ptr i (2 + k)) ++ floatAccesses ++
          [.gps_location (byteAt temp.data_ptr 1).toNat 0,
            .gps_location (byteAt temp.data_ptr 1).toNat 1, .ws_meta_data i]

/-- All that `ws_parse_data` touches, in order. -/
def wsParseAccesses (ws_data_buf : WsData) : List WsAccess :=
  (List.range wsNumberOfDevice).flatMap (fun i => copyAccesses i (rawOf ws_data_buf i)) ++
    (List.range wsNumberOfDevice).flatMap fun i => parseAccesses i (rawOf ws_data_buf i).copied

/-- The sample names a device behind the table that the filter lets through. -/
def WsDataBuffer.NamesPastTable (buf : WsDataBuffer) : Prop :=
  buf.taken = true ∧ wsNumberOfDevice ≤ (byteAt buf.data_ptr 1).toNat ∧
    (byteAt buf.data_ptr 1).toNat ≤ wsNumberOfDevice + 1

instance WsDataBuffer.decidableNamesPastTable (buf : WsDataBuffer) :
    Decidable buf.NamesPastTable := inferInstanceAs (Decidable (_ ∧ _))

variable {buf : WsDataBuffer} {i : ℕ}

/-! ## The loops -/

/-- The first loop stays in range, whatever the samples are. -/
theorem inRange_copyAccesses (hi : i < wsNumberOfDevice) (buf : WsDataBuffer) :
    ∀ a ∈ copyAccesses i buf, a.InRange := by
  rw [copyAccesses]
  refine List.forall_mem_cons.mpr ⟨hi, ?_⟩
  split
  · exact fun a ha => absurd ha List.not_mem_nil
  refine List.forall_mem_cons.mpr ⟨⟨hi, by decide⟩, ?_⟩
  split
  · exact fun a ha => absurd ha List.not_mem_nil
  refine List.forall_mem_cons.mpr ⟨hi, fun a ha => ?_⟩
  obtain ⟨j, hj, ha⟩ := List.mem_flatMap.mp ha
  have hj := List.mem_range.mp hj
  rcases List.mem_pair.mp ha with rfl | rfl
  · exact ⟨hi, hj⟩
  · exact ⟨hi, hj⟩

theorem inRange_floatAccesses : ∀ a ∈ floatAccesses, a.InRange := by decide

/-- A record is made in range exactly if its device is in the table of positions. -/
theorem inRange_recordAccesses_iff (hi : i < wsNumberOfDevice) (id : ℕ) :
    (∀ a ∈ (List.range 12).map (fun k => WsAccess.temp_data_ptr i (2 + k)) ++ floatAccesses ++
      [.gps_location id 0, .gps_location id 1, .ws_meta_data i], a.InRange) ↔
        id < wsNumberOfDevice := by
  rw [List.forall_mem_append, List.forall_mem_append, List.forall_mem_map]
  constructor
  · exact fun h => (h.2 _ List.mem_cons_self).1
  · intro hid
    refine ⟨⟨fun k hk => ⟨hi, ?_⟩, inRange_floatAccesses⟩, ?_⟩
    · have hk := List.mem_range.mp hk
      rw [wsMaxDataSize]
      omega
    · simp only [List.forall_mem_cons]
      exact ⟨⟨hid, by decide⟩, ⟨hid, by decide⟩, hi, fun a ha => absurd ha List.not_mem_nil⟩

/-- **The second loop stays in range unless the sample names a device behind the table.** -/
theorem inRange_parseAccesses_iff (hi : i < wsNumberOfDevice) (temp : WsDataBuffer) :
    (∀ a ∈ parseAccesses i temp, a.InRange) ↔ ¬ temp.NamesPastTable := by
  have hnil : ∀ a ∈ ([] : List WsAccess), a.InRange := fun a ha => absurd ha List.not_mem_nil
  rw [parseAccesses, List.forall_mem_cons, WsDataBuffer.NamesPastTable, WsDataBuffer.taken,
    decide_eq_true_iff]
  split
  case isTrue hid => exact iff_of_true ⟨hi, hnil⟩ fun hcon => hcon.1.1 hid
  rw [List.forall_mem_cons]
  split
  case isTrue hfirst => exact iff_of_true ⟨hi, ⟨hi, by decide⟩, hnil⟩ fun hcon => hfirst hcon.1.2
  case isFalse hid hfirst =>
    have hread : temp.loraNodeID ≠ 0 ∧ byteAt temp.data_ptr 0 = 0x24 := ⟨hid, not_not.mp hfirst⟩
    rw [and_iff_right hread, List.forall_mem_cons]
    split
    case isTrue hinvalid =>
      refine iff_of_true ⟨hi, ⟨hi, by decide⟩, ⟨hi, by decide⟩, ?_⟩ ?_
      · exact List.forall_mem_singleton.mpr hi
      · rw [hinvalid]
        decide
    split
    case isTrue hpast =>
      exact iff_of_true ⟨hi, ⟨hi, by decide⟩, ⟨hi, by decide⟩, hnil⟩
        fun hcon => Nat.not_lt.mpr hcon.2 hpast
    case isFalse hpast =>
      rw [inRange_recordAccesses_iff hi]
      constructor
      · exact fun h hcon => Nat.not_lt.mpr hcon.1 h.2.2.2
      · refine fun hcon => ⟨hi, ⟨hi, by decide⟩, ⟨hi, by decide⟩, ?_⟩
        by_contra hge
        exact hcon ⟨Nat.not_lt.mp hge, Nat.not_lt.mp hpast⟩

/-- A copy names the device its sample names. -/
theorem namesPastTable_copied (buf : WsDataBuffer) :
    buf.copied.NamesPastTable ↔ buf.NamesPastTable := by
  rw [WsDataBuffer.copied]
  split
  case isTrue => rfl
  case isFalse htaken =>
    exact iff_of_false (fun hcon => absurd hcon.1 (by decide)) fun hcon => htaken hcon.1

/-- A parse stays in range exactly if no sample names a device behind the table. -/
theorem inRange_wsParseAccesses_iff (ws_data_buf : WsData) :
    (∀ a ∈ wsParseAccesses ws_data_buf, a.InRange) ↔
      ∀ i < wsNumberOfDevice, ¬ (rawOf ws_data_buf i).NamesPastTable := by
  rw [wsParseAccesses, List.forall_mem_append]
  simp only [List.mem_flatMap, List.mem_range]
  constructor
  · rintro ⟨-, h⟩ i hi
    rw [← namesPastTable_copied, ← inRange_parseAccesses_iff hi]
    exact fun a ha => h a ⟨i, hi, ha⟩
  · refine fun h => ⟨?_, ?_⟩
    · rintro a ⟨i, hi, ha⟩
      exact inRange_copyAccesses hi _ a ha
    · rintro a ⟨i, hi, ha⟩
      refine (inRange_parseAccesses_iff hi _).mpr ?_ a ha
      rw [namesPastTable_copied]
      exact h i hi

/-! ## Updates -/

/-- The arguments of a call of `ws_update_raw_data`. -/
structure WsUpdate where
  nodeAddr : UInt16
  buff : List UInt8
  buffLen : UInt8

/-- The bytes that count. -/
def WsUpdate.sample (u : WsUpdate) : List UInt8 := u.buff.take u.buffLen.toNat

/-- The raw data after the calls. -/
def wsUpdates (ws_data_buf : WsData) (us : List WsUpdate) : Option WsData :=
  us.foldlM (fun ws_data_buf u => appInputDataHandle ws_data_buf u.nodeAddr u.buff u.buffLen)
    ws_data_buf

/-- The last call for device `i`. -/
def lastUpdate (us : List WsUpdate) (i : ℕ) : Option WsUpdate :=
  us.reverse.find? fun u => u.nodeAddr.toNat = i

/-- The sample starts with `$` and the identifier 65 or 66. -/
def WsUpdate.NamesPastTable (u : WsUpdate) : Prop :=
  u.sample.getD 0 0 = 0x24 ∧ (u.sample.getD 1 0 = 65 ∨ u.sample.getD 1 0 = 66)

instance WsUpdate.decidableNamesPastTable (u : WsUpdate) : Decidable u.NamesPastTable :=
  inferInstanceAs (Decidable (_ ∧ _))

variable {us : List WsUpdate} {u : WsUpdate} {ws_data_buf : WsData}

/-- The last of a row of updates is the last of its tail, if that has one. -/
theorem lastUpdate_cons (u : WsUpdate) (us : List WsUpdate) (i : ℕ) : lastUpdate (u :: us) i
    = (lastUpdate us i).or (if u.nodeAddr.toNat = i then some u else none) := by
  rw [lastUpdate, lastUpdate, List.reverse_cons, List.find?_append, List.find?_singleton]
  simp

/-- The last update of a device has its address. -/
theorem nodeAddr_of_lastUpdate (h : lastUpdate us i = some u) : u.nodeAddr.toNat = i := by
  simpa using List.find?_some h

/-- A call that fits leaves its sample with its device, and the others as they are. -/
theorem rawOf_appInputDataHandle (ws_data_buf : WsData) (hu : u.buffLen.toNat ≤ wsMaxDataSize) :
    ∃ buf, appInputDataHandle ws_data_buf u.nodeAddr u.buff u.buffLen = some buf ∧
      ∀ i < wsNumberOfDevice, rawOf buf i = if u.nodeAddr.toNat = i then
        storedBuffer u.nodeAddr u.buff u.buffLen else rawOf ws_data_buf i := by
  rw [appInputDataHandle, wsUpdateRawData]
  split
  case isTrue hge => exact ⟨_, rfl, fun i hi => (if_neg (by omega)).symm⟩
  case isFalse hge =>
    rw [if_neg (Nat.not_lt.mpr hu)]
    refine ⟨_, rfl, fun i _ => ?_⟩
    rw [rawOf_update (Nat.lt_of_not_le hge), ← storedBuffer]
    exact if_congr eq_comm rfl rfl

/-- **The last call for a device leaves its sample.** -/
theorem rawOf_wsUpdates (ws_data_buf : WsData) (us : List WsUpdate)
    (hlen : ∀ u ∈ us, u.buffLen.toNat ≤ wsMaxDataSize) :
    ∃ buf, wsUpdates ws_data_buf us = some buf ∧ ∀ i < wsNumberOfDevice, rawOf buf i
      = (lastUpdate us i).elim (rawOf ws_data_buf i)
        fun u => storedBuffer u.nodeAddr u.buff u.buffLen := by
  induction us generalizing ws_data_buf with
  | nil => exact ⟨ws_data_buf, rfl, fun i _ => rfl⟩
  | cons u us ih =>
    obtain ⟨hu, hus⟩ := List.forall_mem_cons.mp hlen
    obtain ⟨buf, hbuf, hraw⟩ := rawOf_appInputDataHandle ws_data_buf hu
    obtain ⟨buf', hbuf', hraw'⟩ := ih buf hus
    refine ⟨buf', ?_, fun i hi => ?_⟩
    · rw [wsUpdates, List.foldlM_cons, hbuf]
      exact hbuf'
    · rw [hraw' i hi, hraw i hi, lastUpdate_cons]
      cases lastUpdate us i with
      | none =>
        rw [Option.none_or]
        split <;> rfl
      | some u' => rfl

/-- What is stored of a sample is its beginning, with zeros behind. -/
theorem byteAt_storedBuffer (hlen : u.buffLen.toNat ≤ wsMaxDataSize) (j : ℕ) :
    byteAt (storedBuffer u.nodeAddr u.buff u.buffLen).data_ptr j = u.sample.getD j 0 := by
  have hsample : 0 + u.sample.length ≤ wsMaxDataSize := by
    rw [Nat.zero_add, WsUpdate.sample, List.length_take]
    exact (Nat.min_le_left _ _).trans hlen
  have hzero : byteAt (Vector.replicate wsMaxDataSize (0 : UInt8)) j = 0 := by
    rw [byteAt, Vector.toList_replicate, List.getD_eq_getElem?_getD, List.getElem?_replicate]
    split <;> rfl
  rw [storedBuffer, ← WsUpdate.sample, byteAt_copy _ hsample, Nat.sub_zero, hzero]
  split
  case isTrue => rfl
  case isFalse hge => rw [List.getD_eq_default _ _ (by omega)]

/-- What is stored names the device the sample names. -/
theorem namesPastTable_storedBuffer (hlen : u.buffLen.toNat ≤ wsMaxDataSize)
    (haddr : u.nodeAddr.toNat < wsNumberOfDevice) :
    (storedBuffer u.nodeAddr u.buff u.buffLen).NamesPastTable ↔
      u.nodeAddr.toNat ≠ 0 ∧ u.NamesPastTable := by
  have hid : (storedBuffer u.nodeAddr u.buff u.buffLen).loraNodeID ≠ 0 ↔ u.nodeAddr.toNat ≠ 0 := by
    rw [storedBuffer, ne_eq, ← UInt8.toNat_inj, UInt16.toNat_toUInt8, UInt8.toNat_zero]
    rw [wsNumberOfDevice] at haddr
    omega
  have hpast : ∀ b : UInt8, wsNumberOfDevice ≤ b.toNat ∧ b.toNat ≤ wsNumberOfDevice + 1 ↔
      b = 65 ∨ b = 66 := by
    intro b
    rw [← UInt8.toNat_inj, ← UInt8.toNat_inj]
    show 65 ≤ b.toNat ∧ b.toNat ≤ 66 ↔ b.toNat = 65 ∨ b.toNat = 66
    omega
  rw [WsDataBuffer.NamesPastTable, WsDataBuffer.taken, decide_eq_true_iff, hid,
    byteAt_storedBuffer hlen, byteAt_storedBuffer hlen, hpast, and_assoc, WsUpdate.NamesPastTable]

theorem not_namesPastTable_wsAppInit (i : ℕ) : ¬ (rawOf wsAppInit i).NamesPastTable := by
  rw [rawOf_wsAppInit]
  decide

/-- **Parsing what any calls have stored stays in range exactly if the last sample of no device
1, …, 64 starts with `$` and the identifier 65 or 66.** -/
theorem wsParse_inRange_iff (us : List WsUpdate)
    (hlen : ∀ u ∈ us, u.buffLen.toNat ≤ wsMaxDataSize) :
    (∃ buf, wsUpdates wsAppInit us = some buf ∧ ∀ a ∈ wsParseAccesses buf, a.InRange) ↔
      ∀ i, 1 ≤ i → i < wsNumberOfDevice → ∀ u, lastUpdate us i = some u → ¬ u.NamesPastTable := by
  obtain ⟨buf, hbuf, hraw⟩ := rawOf_wsUpdates wsAppInit us hlen
  have hlast : ∀ i < wsNumberOfDevice, (¬ (rawOf buf i).NamesPastTable) ↔
      (1 ≤ i → ∀ u, lastUpdate us i = some u → ¬ u.NamesPastTable) := by
    intro i hi
    rw [hraw i hi]
    cases hu : lastUpdate us i with
    | none => exact iff_of_true (not_namesPastTable_wsAppInit i) fun _ u hnone => nomatch hnone
    | some u =>
      obtain rfl := nodeAddr_of_lastUpdate hu
      have hmem : u ∈ us := List.mem_reverse.mp (List.mem_of_find?_eq_some hu)
      rw [Option.elim_some, namesPastTable_storedBuffer (hlen u hmem) hi, not_and,
        ← Nat.one_le_iff_ne_zero]
      refine imp_congr_right fun _ => ⟨fun h u' hu' => ?_, fun h => h u rfl⟩
      obtain rfl := Option.some.inj hu'
      exact h
  rw [hbuf]
  constructor
  · rintro ⟨_, heq, h⟩ i h1 hi
    obtain rfl := Option.some.inj heq
    exact (hlast i hi).mp ((inRange_wsParseAccesses_iff buf).mp h i hi) h1
  · intro h
    refine ⟨buf, rfl, (inRange_wsParseAccesses_iff buf).mpr fun i hi => ?_⟩
    exact (hlast i hi).mpr fun h1 => h i h1 hi

/-- Device 1 sends its own identifier. -/
theorem wsParse_inRange_iff_own :
    ∃ buf, wsUpdates wsAppInit [⟨1, [0x24, 1, 0, 90], 4⟩] = some buf ∧
      ∀ a ∈ wsParseAccesses buf, a.InRange := by
  refine (wsParse_inRange_iff _ (by decide)).mpr fun i h1 _ u hu hpast => ?_
  obtain rfl := List.mem_singleton.mp (List.mem_reverse.mp (List.mem_of_find?_eq_some hu))
  exact absurd hpast (by decide)

/-- **A sample that names device 65** is let through to the table of positions. -/
theorem not_wsParse_inRange_past :
    ¬ ∃ buf, wsUpdates wsAppInit [⟨1, [0x24, 65, 0, 90], 4⟩] = some buf ∧
      ∀ a ∈ wsParseAccesses buf, a.InRange := by
  rintro ⟨buf, hbuf, h⟩
  have hpast : (wsUpdates wsAppInit [⟨1, [0x24, 65, 0, 90], 4⟩]).all
      (fun buf => ∀ a ∈ wsParseAccesses buf, a.InRange) = false := by decide +kernel
  rw [hbuf, Option.all_some, decide_eq_false_iff_not] at hpast
  exact hpast h

end LoRaGwSv
