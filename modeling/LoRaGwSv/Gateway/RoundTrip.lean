import LoRaGwSv.Gateway.ThreadDown

/-!
# Gateway/RoundTrip — a downlink from message to packet

The server composes a datagram for a message and the gateway parses it.  An admitted message comes
back exactly if its polarity is not inverted (`roundTrip_iff`): after `"ipol":true` stands one byte
that the server has not written and a second `ipol`, and no value of that byte makes the rest
readable — a comma begins a name without a quote, white space leads to a duplicate, a brace ends the
object before its size, a NUL ends the text, and anything else is out of place.
-/

namespace LoRaGwSv

open Text

variable {cfg : DownConfig} {m : DownlinkMsg} {sf bw cr s t : List UInt8} {hole c : UInt8}
  {left : ℕ}

/-! ## The byte that is not written -/

/-- A text that goes on with a comma, behind a character that no text begins a comment with. -/
theorem removeComments_comma {d : UInt8} (hd : d ≠ 44) (stop : List UInt8) (c : UInt8)
    (t : List UInt8) : ∃ t', removeComments [47, d] stop 0 false false (c :: 44 :: t) =
      c :: 44 :: t' := by
  have hcomma : ∀ i e, ∃ t', removeComments [47, d] stop 0 i e (44 :: t) = 44 :: t' := fun i e => by
    rw [removeComments, if_neg (by simp), if_neg (by simp), if_neg (by simp [List.isPrefixOf])]
    exact ⟨_, rfl⟩
  rw [removeComments]
  split
  · obtain ⟨t', ht'⟩ := hcomma false true
    exact ⟨t', by rw [ht']⟩
  · split
    · obtain ⟨t', ht'⟩ := hcomma true false
      exact ⟨t', by rw [← ht']; rfl⟩
    · rw [if_neg (by simp [List.isPrefixOf, hd])]
      obtain ⟨t', ht'⟩ := hcomma false false
      exact ⟨t', by rw [ht']⟩

/-- Whatever the byte is, comments are only looked for behind it. -/
theorem withoutComments_hole (h : quoting false s = some false) (hhole : hole ≠ 0)
    (t : List UInt8) : ∃ t', withoutComments (s ++ hole :: 44 :: t) = s ++ hole :: 44 :: t' := by
  have hstring : cString (hole :: 44 :: t) = hole :: 44 :: cString t := by
    rw [cString, List.takeWhile_cons_of_pos (by simpa using hhole),
      List.takeWhile_cons_of_pos (by decide)]
    rfl
  obtain ⟨t', ht'⟩ := removeComments_comma (d := 42) (by decide) (ascii "*/") hole (cString t)
  obtain ⟨t'', ht''⟩ := removeComments_comma (d := 47) (by decide) (ascii "\n") hole t'
  refine ⟨t'', ?_⟩
  rw [withoutComments_append h, hstring]
  exact congrArg (s ++ ·) ((congrArg _ ht').trans ht'')

/-- The fields up to the polarity, and an inverted one. -/
def openFields (m : DownlinkMsg) (sf bw cr : List UInt8) : List Field :=
  radioFields m sf bw cr ++ [booleanField "ipol" true]

/-- A name that is there already makes the object unreadable. -/
theorem parseMember_duplicate {value : Reader Json} {members : List (List UInt8 × Json)}
    {name : List UInt8} (h : Plain name) (hname : (objectGetValue members name).isSome)
    (s : List UInt8) : parseMember value members (quoted name ++ 58 :: s) = none := by
  rw [parseMember_quoted h]
  cases value s with
  | none => rfl
  | some r =>
    rw [Option.bind_some]
    dsimp only
    rw [objectAdd]
    split
    · rfl
    · rfl

/-- **The members are not read on behind the byte**, unless it is a brace. -/
theorem afterItem_hole {value : Reader Json} {members : List (List UInt8 × Json)} {n : ℕ}
    (hmem : (objectGetValue members (ascii "ipol")).isSome) (hbrace : hole ≠ 125)
    (hs : isSpace hole = true ∨ hole = 44 → s = 44 :: (quoted (ascii "ipol") ++ 58 :: t)) :
    afterItem (itemsLoop (parseMember value) 125 n) 125 members (hole :: s) = none := by
  by_cases hspace : isSpace hole = true
  · obtain rfl := hs (Or.inl hspace)
    rw [afterItem, skipWhitespaces, List.dropWhile_cons_of_pos hspace]
    change itemsLoop (parseMember value) 125 n members (quoted (ascii "ipol") ++ 58 :: t) = none
    cases n with
    | zero => rfl
    | succ n =>
      change (parseMember value members (quoted (ascii "ipol") ++ 58 :: t)).bind _ = none
      rw [parseMember_duplicate (by decide) hmem]
      rfl
  · rw [Bool.not_eq_true] at hspace
    rw [afterItem, skipWhitespaces_cons hspace]
    dsimp only
    by_cases hcomma : hole = 44
    · obtain rfl := hs (Or.inr hcomma)
      rw [if_pos hcomma]
      cases n with
      | zero => rfl
      | succ n => rfl
    · rw [if_neg hcomma, if_neg hbrace]

/-- The fields before the hole are those of an object. -/
theorem openFields_fields (h : m.Texts sf bw cr) :
    Fields (left + 1) (timeField m :: openFields m sf bw cr) := by
  have hall : Fields (left + 1) (timeField m :: txpkFields m sf bw cr true) := h.fields true
  have heq : timeField m :: txpkFields m sf bw cr true =
      (timeField m :: openFields m sf bw cr) ++ payloadFields m := by
    rw [txpkFields, openFields, List.cons_append, List.append_assoc, List.singleton_append]
  rw [heq] at hall
  exact hall.left_of_append

/-- The inner object is not read, unless the byte is a brace. -/
theorem parseValue_hole (left : ℕ) (h : m.Texts sf bw cr) (hbrace : hole ≠ 125)
    (hs : isSpace hole = true ∨ hole = 44 → s = 44 :: (quoted (ascii "ipol") ++ 58 :: t)) :
    parseValue (left + 2) (123 :: ((timeField m).toText ++
      (moreText Field.toText (radioFields m sf bw cr) ++
        44 :: (quoted (ascii "ipol") ++ 58 :: (ascii "true" ++ hole :: s))))) = none := by
  have hfields : Fields (left + 1) (timeField m :: openFields m sf bw cr) := openFields_fields h
  have hradio : Fields (left + 1) (timeField m :: radioFields m sf bw cr) := by
    rw [openFields, ← List.cons_append] at hfields
    exact hfields.left_of_append
  obtain ⟨n, hn⟩ := hradio.parseItems
    (r := 44 :: (quoted (ascii "ipol") ++ 58 :: (ascii "true" ++ hole :: s))) ⟨44, _, rfl, rfl⟩
  change parseObjectValue (parseValue (left + 1)) _ = _
  rw [parseObjectValue, hn, Option.map_eq_none_iff]
  change itemsLoop (parseMember (parseValue (left + 1))) 125 n
    ((timeField m :: radioFields m sf bw cr).map Field.member)
    (quoted (ascii "ipol") ++ 58 :: (ascii "true" ++ hole :: s)) = none
  cases n with
  | zero => rfl
  | succ n =>
    have hadd : objectAdd ((timeField m :: radioFields m sf bw cr).map Field.member)
        (ascii "ipol") (.boolean true) =
          some ((timeField m :: openFields m sf bw cr).map Field.member) := by
      rw [openFields, ← List.cons_append] at hfields
      exact objectAdd_member hfields.not_mem hfields.length_lt
    change (parseMember (parseValue (left + 1)) _
      (quoted (ascii "ipol") ++ 58 :: (ascii "true" ++ hole :: s))).bind _ = none
    rw [parseMember_quoted (by decide)]
    change (Option.bind (Option.bind (some (Json.boolean true, hole :: s)) _) _) = none
    rw [Option.bind_some]
    dsimp only
    rw [hadd]
    exact afterItem_hole rfl hbrace hs

/-- The text of a message up to the byte. -/
def holeText (m : DownlinkMsg) (sf bw cr : List UInt8) : List UInt8 :=
  txpkOpen m sf bw cr ++ ascii ",\"ipol\":true"

theorem quoting_holeText (h : m.Texts sf bw cr) :
    quoting false (holeText m sf bw cr) = some false := by
  rw [holeText, quoting_append_of_eq h.quoting_txpkOpen]
  rfl

/-- **With any other byte in the hole the text cannot be read.** -/
theorem parseValue_holeText (left : ℕ) (h : m.Texts sf bw cr) (hbrace : hole ≠ 125)
    (hs : isSpace hole = true ∨ hole = 44 → s = 44 :: (quoted (ascii "ipol") ++ 58 :: t)) :
    parseValue (left + 3) (holeText m sf bw cr ++ hole :: s) = none := by
  have hinner := parseValue_hole left h hbrace hs
  have heq : holeText m sf bw cr ++ hole :: s = 123 :: (quoted (ascii "txpk") ++ 58 :: 123 ::
      ((timeField m).toText ++ (moreText Field.toText (radioFields m sf bw cr) ++
        44 :: (quoted (ascii "ipol") ++ 58 :: (ascii "true" ++ hole :: s))))) := by
    simp only [holeText, txpkOpen, List.append_assoc, List.cons_append]
    rfl
  rw [heq]
  exact parseValue_first_none (by decide) hinner

/-- The text of a message whose polarity is inverted. -/
def brokenText (m : DownlinkMsg) (sf bw cr : List UInt8) (hole : UInt8) : List UInt8 :=
  holeText m sf bw cr ++ hole :: (ascii ",\"ipol\":false" ++ txpkClose m)

theorem quoting_txpkClose (h : m.Texts sf bw cr) : quoting false (txpkClose m) = some false := by
  have hfields : Fields 1 (timeField m :: txpkFields m sf bw cr false) := h.fields false
  rw [txpkClose, quoting_append_of_eq (quoting_moreText fun f hf => hfields.quoting_toText ?_)]
  · rfl
  · exact List.mem_cons_of_mem _ (List.mem_append_right _ (List.mem_cons_of_mem _ hf))

/-- **A text with the byte in it is not read**, unless the byte is a brace. -/
theorem jsonParse_hole (h : m.Texts sf bw cr) (hbrace : hole ≠ 125) :
    jsonParseStringWithComments (brokenText m sf bw cr hole) = none := by
  have hopen := quoting_holeText h
  by_cases hclean : isSpace hole = true ∨ hole = 44
  · have hhole : quoting false [hole] = some false := by
      obtain hspace | rfl := hclean
      · exact quoting_space hspace false
      · rfl
    have hwhole : quoting false (brokenText m sf bw cr hole) = some false := by
      rw [brokenText, quoting_append_of_eq hopen, ← List.singleton_append,
        quoting_append_of_eq hhole]
      exact quoting_txpkClose h
    have hread := parseValue_holeText 17 (s := ascii ",\"ipol\":false" ++ txpkClose m) h hbrace
      fun _ => rfl
    exact jsonParse_eq_none (withoutComments_eq hwhole) rfl hread
  · by_cases hnul : hole = 0
    · have heq : withoutComments (brokenText m sf bw cr hole) = holeText m sf bw cr := by
        rw [brokenText, withoutComments_append hopen, hnul]
        exact List.append_nil _
      have hopened : objectText (txpkField m sf bw cr true) [] =
          holeText m sf bw cr ++ txpkClose m := by
        rw [objectText_txpkField, holeText, List.append_assoc]
        rfl
      have hcut := jsonParse_prefix (h.fields_txpk true) hopened (by
        rw [txpkClose]
        exact List.append_ne_nil_of_right_ne_nil _ (List.cons_ne_nil _ _))
      rw [jsonParseStringWithComments, withoutComments_eq hopen] at hcut
      rw [jsonParseStringWithComments, heq, hcut]
    · obtain ⟨t', ht'⟩ := withoutComments_hole hopen hnul
        (ascii "\"ipol\":false" ++ txpkClose m)
      have hread := parseValue_holeText 17 (s := 44 :: t') (t := []) h hbrace
        fun h => absurd h hclean
      exact jsonParse_eq_none ht' rfl hread

/-- The object that a brace ends before its size. -/
def openField (m : DownlinkMsg) (sf bw cr : List UInt8) : Field :=
  ⟨ascii "txpk", objectText (timeField m) (openFields m sf bw cr),
    .object ((timeField m :: openFields m sf bw cr).map Field.member)⟩

/-- A brace in the hole ends the inner object early. -/
theorem brokenText_brace (m : DownlinkMsg) (sf bw cr : List UInt8) : brokenText m sf bw cr 125 =
    objectText (openField m sf bw cr) (booleanField "ipol" false :: payloadFields m) ++ [125] := by
  simp only [brokenText, holeText, txpkOpen, txpkClose, objectText, openField, openFields,
    Field.toText, moreText, quoted, List.flatMap_append, List.flatMap_cons, List.flatMap_nil,
    List.append_assoc, List.cons_append, List.nil_append]
  rfl

theorem fields_brace (h : m.Texts sf bw cr) : Fields (left + 2)
    (openField m sf bw cr :: booleanField "ipol" false :: payloadFields m) where
  plain := by
    simp only [payloadFields, List.forall_mem_cons]
    refine ⟨?_, ?_, ?_, ?_, ?_, fun _ hf => by cases hf⟩ <;> (change Plain (ascii _); decide)
  denotes := by
    simp only [payloadFields, List.forall_mem_cons]
    exact ⟨.object (openFields_fields h), .boolean false, .decimal _, .decimal _,
      .string fun _ => printable_base64, fun _ hf => by cases hf⟩
  nodup := by
    change [ascii "txpk", ascii "ipol", ascii "prea", ascii "size", ascii "data"].Nodup
    decide
  length_le := by
    change 5 ≤ objectMaxCapacity
    decide

/-! ## What the gateway accepts -/

/-- A step that goes on has gone through. -/
theorem bind_ok {α β : Type} {x : Except DownError α} {f : α → Except DownError β} {b : β}
    (h : (x >>= f) = .ok b) : ∃ a, x = .ok a ∧ f a = .ok b := by
  cases x with
  | error e => cases h
  | ok a => exact ⟨a, rfl, h⟩

theorem orAbort_ok {α : Type} {o : Option α} {e : DownError} {a : α} (h : orAbort o e = .ok a) :
    o = some a := by
  cases o with
  | none => cases h
  | some b =>
    cases h
    rfl

/-- The packet that is accepted has an object with a size. -/
theorem parseTxpk_ok {x : Timeval × LgwPktTx} (h : parseTxpk cfg s = .ok x) :
    ∃ root members, jsonParseStringWithComments s = some (.object root) ∧
      objectGetValue root (ascii "txpk") = some (.object members) ∧
      (objectGetValue members (ascii "size")).isSome := by
  rw [parseTxpk] at h
  obtain ⟨root, hroot, h⟩ := bind_ok h
  obtain ⟨members, hmembers, h⟩ := bind_ok h
  obtain ⟨_, -, h⟩ := bind_ok h
  obtain ⟨_, -, h⟩ := bind_ok h
  obtain ⟨_, -, h⟩ := bind_ok h
  obtain ⟨_, -, h⟩ := bind_ok h
  obtain ⟨_, -, h⟩ := bind_ok h
  obtain ⟨_, -, h⟩ := bind_ok h
  obtain ⟨_, hsize, -⟩ := bind_ok h
  obtain ⟨fields, hfields, hmembers⟩ := Option.bind_eq_some_iff.mp (orAbort_ok hmembers)
  obtain ⟨val, hval, hmembers⟩ := Option.bind_eq_some_iff.mp hmembers
  obtain rfl : root = .object fields := by
    cases root <;> cases hfields
    rfl
  obtain rfl : val = .object members := by
    cases val <;> cases hmembers
    rfl
  exact ⟨fields, members, orAbort_ok hroot, hval, by rw [orAbort_ok hsize]; rfl⟩

/-- **A message whose polarity is inverted is not accepted**, whatever the byte. -/
theorem parseTxpk_brokenText (h : m.Texts sf bw cr) (x : Timeval × LgwPktTx) :
    parseTxpk cfg (brokenText m sf bw cr hole) ≠ .ok x := by
  intro hok
  obtain ⟨root, members, hread, htxpk, hsize⟩ := parseTxpk_ok hok
  by_cases hbrace : hole = 125
  · rw [hbrace, brokenText_brace, jsonParse_object (fields_brace h)] at hread
    cases hread
    cases htxpk
    cases hsize
  · rw [jsonParse_hole h hbrace] at hread
    cases hread

/-! ## The round trip -/

variable {buff_down : ℕ → UInt8} {token_h token_l : UInt8}

/-- A downlink is told by its header, and its text is parsed. -/
theorem threadDown_downlink (h : 8 ≤ s.length) :
    threadDown cfg ([protocolVersion, token_h, token_l, pktDownlinkData] ++ s) =
      parseTxpk cfg s := by
  rw [threadDown, if_neg]
  · exact if_pos rfl
  · rintro (hlen | hversion)
    · rw [List.length_append] at hlen
      change 4 + s.length < 12 at hlen
      omega
    · exact hversion rfl

/-- The text is longer than what a header lacks. -/
theorem length_txpkOpen (m : DownlinkMsg) (sf bw cr : List UInt8) :
    8 ≤ (txpkOpen m sf bw cr).length := by
  simp only [txpkOpen, quoted, List.length_cons, List.length_append]
  change 8 ≤ 4 + 1 + 1 + _ + 1
  omega

/-- The datagram of a message with inverted polarity. -/
theorem DownlinkMsg.Admitted.threadDownstream_inverted (hm : m.Admitted) (h : m.Texts sf bw cr)
    (hpol : m.invert_pol = true) : LoRaGwSv.threadDownstream buff_down token_h token_l m = some
      ([protocolVersion, token_h, token_l, pktDownlinkData] ++
        brokenText m sf bw cr (buff_down (4 + (txpkOpen m sf bw cr).length + 12))) := by
  rw [hm.threadDownstream h, composePolarity, hpol, brokenText, holeText]
  simp only [if_true, List.append_assoc, List.cons_append, List.nil_append]

/-- The packet and its time are those of the message, apart from the frequency. -/
structure DownlinkMsg.Yields (m : DownlinkMsg) (t : Timeval) (p : LgwPktTx) : Prop where
  rf_chain : p.rf_chain = m.rf_chain
  rf_power : p.rf_power = m.rf_power
  datarate : p.datarate = m.datarate
  bandwidth : p.bandwidth = m.bandwidth
  coderate : p.coderate = m.coderate
  invert_pol : p.invert_pol = m.invert_pol
  preamble : p.preamble = m.preamble
  size : p.size = m.size
  payload : p.payload.toList.take m.size.toNat = m.payload.toList.take m.size.toNat
  tv_sec : t.tv_sec = m.msg_tx_time.tv_sec
  tv_usec : t.tv_usec = m.msg_tx_time.tv_usec

/-- The datagram that is composed for the message, in a buffer that holds whatever it does, is
received at once, accepted, and yields the message. -/
def DownlinkMsg.RoundTrips (m : DownlinkMsg) (freqHz : ℚ → UInt32) (buff_down : ℕ → UInt8)
    (token_h token_l : UInt8) : Prop :=
  ∃ d t p, threadDownstream buff_down token_h token_l m = some d ∧ d.length ≤ 1023 ∧
    threadDown ⟨freqHz, 0⟩ d = .ok (t, p) ∧ m.Yields t p

/-- What is read is the time and the packet of the message. -/
theorem DownlinkMsg.Admitted.yields_packet (hm : m.Admitted) (freqHz : ℚ → UInt32) :
    m.Yields m.msg_tx_time (m.packet ⟨freqHz, 0⟩) where
  rf_chain := rfl
  rf_power := Int8.sub_zero _
  datarate := rfl
  bandwidth := rfl
  coderate := rfl
  invert_pol := rfl
  preamble := rfl
  size := rfl
  payload := by
    have hsize : m.size.toNat ≤ 255 := UInt16.le_iff_toNat_le.mp hm.size_le
    have hlen : m.data.length = m.size.toNat := by
      rw [DownlinkMsg.data, List.length_take, Vector.length_toList]
      omega
    have hfits : 0 + m.data.length ≤ 256 := by omega
    have hcopy := Wire.take_copy (Vector.replicate 256 (0 : UInt8)) hfits
    rwa [Nat.zero_add, hlen, List.take_zero, List.nil_append] at hcopy
  tv_sec := rfl
  tv_usec := rfl

/-- **A message that is not inverted comes through**, whatever stood in the buffer before. -/
theorem DownlinkMsg.Admitted.roundTrips (hm : m.Admitted) (hpol : m.invert_pol = false)
    (freqHz : ℚ → UInt32) : m.RoundTrips freqHz buff_down token_h token_l := by
  obtain ⟨sf, bw, cr, h⟩ := hm.texts
  have hlen := hm.length_objectText_le h false
  refine ⟨_, _, _, hm.threadDownstream_eq h hpol, ?_, ?_, hm.yields_packet freqHz⟩
  · rw [List.length_append]
    exact Nat.add_le_add_left hlen 4
  · have hopen := length_txpkOpen m sf bw cr
    have hparse := hm.parseTxpk h ⟨freqHz, 0⟩ []
    rw [List.append_nil, hpol] at hparse
    rw [threadDown_downlink, hparse]
    rw [objectText_txpkField, List.length_append]
    omega

/-- **A message with inverted polarity does not come through.** -/
theorem DownlinkMsg.Admitted.not_roundTrips (hm : m.Admitted) (hpol : m.invert_pol = true)
    (freqHz : ℚ → UInt32) : ¬m.RoundTrips freqHz buff_down token_h token_l := by
  rintro ⟨d, t, p, hd, -, hok, -⟩
  obtain ⟨sf, bw, cr, h⟩ := hm.texts
  rw [hm.threadDownstream_inverted h hpol] at hd
  cases hd
  rw [threadDown_downlink] at hok
  · exact parseTxpk_brokenText h _ hok
  · have hopen := length_txpkOpen m sf bw cr
    rw [brokenText, holeText, List.length_append, List.length_append]
    omega

/-- **An admitted message makes the round trip exactly if its polarity is not inverted**, whatever
the buffer held before. -/
theorem roundTrip_iff (hm : m.Admitted) (freqHz : ℚ → UInt32) (buff_down : ℕ → UInt8)
    (token_h token_l : UInt8) :
    m.RoundTrips freqHz buff_down token_h token_l ↔ m.invert_pol = false := by
  refine ⟨fun h => ?_, fun hpol => hm.roundTrips hpol freqHz⟩
  by_contra hpol
  exact hm.not_roundTrips (Bool.not_eq_false _ ▸ hpol) freqHz h

/-- A message of three bytes, as the server sends it on the channel at 922.1 MHz. -/
def threeBytes : DownlinkMsg :=
  prepareDownlinkMsgMetaData 922100000
    ⟨3, (((Vector.replicate 256 0).set 0 1).set 1 2).set 2 3⟩ ⟨1500000000, 250000⟩

/-- The message of three bytes can be sent. -/
theorem admitted_threeBytes : threeBytes.Admitted :=
  admitted_prepareDownlinkMsgMetaData 922100000 (by decide) (by decide) (by decide) (by decide)

/-- So it comes through. -/
theorem roundTrip_iff_threeBytes : threeBytes.RoundTrips (fun _ => 922100000) (fun _ => 0) 7 9 :=
  (roundTrip_iff admitted_threeBytes (fun _ => 922100000) (fun _ => 0) 7 9).mpr rfl

/-- With inverted polarity the same message does not come through. -/
theorem not_roundTrip_inverted : { threeBytes with invert_pol := true }.Admitted ∧
    ¬{ threeBytes with invert_pol := true }.RoundTrips (fun _ => 922100000) (fun _ => 0) 7 9 := by
  have hm : { threeBytes with invert_pol := true }.Admitted := { admitted_threeBytes with }
  exact ⟨hm, hm.not_roundTrips rfl _⟩

end LoRaGwSv
