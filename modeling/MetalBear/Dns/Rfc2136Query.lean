import MetalBear.Dns.HandleDns
import MetalBear.Library.ByteText
import MetalBear.Library.DnsMessage

/-!
# Reading the answer to a TXT query

`metalbear_rfc2136_query_txt` skips the questions of a reply, and walks the answers to the first TXT
record. It reads no byte that was not received, whatever the server sent; and of a message in the
format it finds the first record whose first string is whole.
-/

namespace MetalBear.Dns

open ByteText Format DnsMessage

/-! ## The code -/

/-- `DNS_TYPE_TXT`. -/
def typeTxt : Nat := 16

/-- A text of the source, as its bytes. -/
def literal (text : String) : Text := text.toUTF8.toList

/-- `rcode_name`. -/
def rcodeName (rcode : Nat) : Text :=
  literal <| match rcode with
  | 0 => "NOERROR"
  | 1 => "FORMERR"
  | 2 => "SERVFAIL"
  | 3 => "NXDOMAIN"
  | 4 => "NOTIMP"
  | 5 => "REFUSED"
  | 6 => "YXDOMAIN"
  | 7 => "YXRRSET"
  | 8 => "NXRRSET"
  | 9 => "NOTAUTH"
  | 10 => "NOTZONE"
  | 16 => "BADSIG or BADVERS"
  | 17 => "BADKEY"
  | 18 => "BADTIME"
  | _ => "unknown"

/-- Two bytes of the reply as a number; nothing where one of them was not received. -/
def wordAt (reply : List UInt8) (pos : Nat) : Option Nat :=
  reply[pos]?.bind fun high => reply[pos + 1]?.map fun low => word16 high low

/-- The loop over the labels of a name, up to where it leaves off. -/
def skipName (reply : List UInt8) (pos : Nat) : Option Nat :=
  if pos < reply.length then
    reply[pos]?.bind fun b =>
      if b = 0 then some (pos + 1)
      else if b &&& 0xc0 = 0xc0 then some (pos + 2)
      else skipName reply (pos + (b.toNat + 1))
  else some (pos + 1)
termination_by reply.length - pos

/-- The loop over the question section. -/
def skipQuestions (reply : List UInt8) : Nat → Nat → Option Nat
  | 0, pos => some pos
  | n + 1, pos =>
    if pos < reply.length then
      (skipName reply pos).bind fun pos => skipQuestions reply n (pos + 4)
    else some pos

/-- `memcpy` out of the reply; nothing where a byte was not received. -/
def bytesAt (reply : List UInt8) (pos n : Nat) : Option (List UInt8) :=
  if pos + n ≤ reply.length then some ((reply.drop pos).take n) else none

/-- The loop over the answers, up to the first TXT record that fits. -/
def firstTxt (reply : List UInt8) (outLen : Nat) : Nat → Nat → Option (Option Text)
  | 0, _ => some none
  | n + 1, pos =>
    if pos + 10 ≤ reply.length then
      (skipName reply pos).bind fun pos =>
        if pos + 10 > reply.length then some none
        else
          (wordAt reply pos).bind fun type =>
          (wordAt reply (pos + 8)).bind fun rdlength =>
            if pos + 10 + rdlength > reply.length then some none
            else if type = typeTxt ∧ rdlength ≥ 1 then
              reply[pos + 10]?.bind fun segment =>
                if segment.toNat + 1 ≤ rdlength ∧ segment.toNat < outLen then
                  (bytesAt reply (pos + 10 + 1) segment.toNat).map some
                else firstTxt reply outLen n (pos + 10 + rdlength)
            else firstTxt reply outLen n (pos + 10 + rdlength)
    else some none

/-- An error: the status, and what is written to the caller's buffer. -/
abbrev DnsError := WfError × Text

/-- `metalbear_rfc2136_query_txt`, on the reply: the text that was found, or the error; nothing
where it reads what was not received. -/
def queryReply (reply : List UInt8) (outLen : Nat) :
    Option (Except DnsError (Option Text)) :=
  if reply.length < 12 then some (.error (networkError, literal "truncated reply"))
  else
    reply[3]?.bind fun flags =>
      let rcode := (flags &&& 0x0f).toNat
      if rcode = 3 then some (.ok none)
      else if rcode ≠ 0 then
        some (.error (networkError, literal "query refused: " ++ rcodeName rcode))
      else
        (wordAt reply 6).bind fun ancount =>
          if ancount = 0 then some (.ok none)
          else
            (wordAt reply 4).bind fun qdcount =>
            (skipQuestions reply qdcount 12).bind fun pos =>
              (firstTxt reply outLen ancount pos).map .ok

/-- `rfc2136_lookup`, on the reply: the content of the record that was found. -/
def lookupReply (reply : List UInt8) : Option (Except WfError (Option Text)) :=
  (queryReply reply 512).map fun
    | .error e => .error e.1
    | .ok found => .ok (found.map fun value => unquote (cString value))

/-! ## Any reply -/

variable {reply rest : List UInt8} {pos n outLen : Nat}

theorem wordAt_isSome (reply : List UInt8) (pos : Nat) (h : pos + 1 < reply.length) :
    ∃ w, wordAt reply pos = some w := by
  rw [wordAt, List.getElem?_eq_getElem (Nat.lt_of_succ_lt h), List.getElem?_eq_getElem h]
  exact ⟨_, rfl⟩

/-- The loop over a name ends, and reads only what was received. -/
theorem skipName_isSome (reply : List UInt8) (pos : Nat) :
    ∃ next, skipName reply pos = some next := by
  induction pos using skipName.induct reply with
  | case1 pos hlt ih =>
    rw [skipName, if_pos hlt, List.getElem?_eq_getElem hlt, Option.bind_some]
    split
    · exact ⟨_, rfl⟩
    · split
      · exact ⟨_, rfl⟩
      · exact ih _
  | case2 pos hlt =>
    rw [skipName, if_neg hlt]
    exact ⟨_, rfl⟩

theorem skipQuestions_isSome (reply : List UInt8) (n pos : Nat) :
    ∃ next, skipQuestions reply n pos = some next := by
  induction n generalizing pos with
  | zero => exact ⟨pos, rfl⟩
  | succ n ih =>
    unfold skipQuestions
    split
    · obtain ⟨next, hnext⟩ := skipName_isSome reply pos
      rw [hnext, Option.bind_some]
      exact ih (next + 4)
    · exact ⟨pos, rfl⟩

/-- A text that was read stands in the reply, and leaves room for its NUL. -/
def Fits (reply : List UInt8) (outLen : Nat) (found : Option Text) : Prop :=
  ∀ text ∈ found, text.length < outLen ∧ text <:+: reply

theorem fits_none : Fits reply outLen none := fun _ h => by cases h

/-- The loop over the answers reads only what was received. -/
theorem firstTxt_isSome (reply : List UInt8) (outLen n pos : Nat) :
    ∃ found, firstTxt reply outLen n pos = some found ∧ Fits reply outLen found := by
  induction n generalizing pos with
  | zero => exact ⟨none, rfl, fits_none⟩
  | succ n ih =>
    unfold firstTxt
    split
    · obtain ⟨next, hnext⟩ := skipName_isSome reply pos
      rw [hnext, Option.bind_some]
      split
      · exact ⟨none, rfl, fits_none⟩
      · next hfixed =>
        obtain ⟨type, htype⟩ := wordAt_isSome reply next (by omega)
        obtain ⟨rdlength, hrdlength⟩ := wordAt_isSome reply (next + 8) (by omega)
        rw [htype, Option.bind_some, hrdlength, Option.bind_some]
        split
        · exact ⟨none, rfl, fits_none⟩
        · next hrdata =>
          split
          · next htxt =>
            have hsegment : next + 10 < reply.length := by omega
            rw [List.getElem?_eq_getElem hsegment, Option.bind_some]
            split
            · next hfits =>
              have hread : next + 10 + 1 + reply[next + 10].toNat ≤ reply.length := by omega
              refine ⟨some _, congrArg _ (if_pos hread), ?_⟩
              intro text htext
              obtain rfl := Option.some.inj htext
              refine ⟨?_, (List.take_prefix _ _).isInfix.trans (List.drop_suffix _ _).isInfix⟩
              rw [List.length_take]
              omega
            · exact ih _
          · exact ih _
    · exact ⟨none, rfl, fits_none⟩

/-- Whatever the server sends, the reader ends, reads no byte that was not received, and writes no
more than the caller's buffer holds. -/
theorem query_reads_received (reply : List UInt8) (outLen : Nat) :
    ∃ answer, queryReply reply outLen = some answer ∧
      ∀ text, answer = .ok (some text) → text.length < outLen ∧ text <:+: reply := by
  unfold queryReply
  split
  · exact ⟨_, rfl, fun text h => by cases h⟩
  · next hheader =>
    have hflags : 3 < reply.length := by omega
    rw [List.getElem?_eq_getElem hflags, Option.bind_some]
    dsimp only
    split
    · exact ⟨_, rfl, fun text h => by cases h⟩
    · split
      · exact ⟨_, rfl, fun text h => by cases h⟩
      · obtain ⟨ancount, hancount⟩ := wordAt_isSome reply 6 (by omega)
        rw [hancount, Option.bind_some]
        split
        · exact ⟨_, rfl, fun text h => by cases h⟩
        · obtain ⟨qdcount, hqdcount⟩ := wordAt_isSome reply 4 (by omega)
          obtain ⟨answers, hanswers⟩ := skipQuestions_isSome reply qdcount 12
          obtain ⟨found, hfound, hfits⟩ := firstTxt_isSome reply outLen ancount answers
          rw [hqdcount, Option.bind_some, hanswers, Option.bind_some, hfound]
          refine ⟨_, rfl, fun text h => ?_⟩
          cases h
          exact hfits text rfl

/-! ## Messages -/

theorem and_c0_eq_iff (b : UInt8) : b &&& 0xc0 = 0xc0 ↔ 192 ≤ b.toNat := by
  have hbits : ∀ k < 256, k &&& 192 = 192 ↔ 192 ≤ k := by decide +kernel
  rw [← UInt8.toNat_inj, UInt8.toNat_and]
  exact hbits _ b.toNat_lt

theorem and_0f_toNat (b : UInt8) : (b &&& 0x0f).toNat = b.toNat % 16 := by
  rw [UInt8.toNat_and]
  exact Nat.and_two_pow_sub_one_eq_mod b.toNat 4

section Standing

variable {bytes : List UInt8} {b high low : UInt8}

theorem lt_of_standing (h : reply.drop pos = b :: rest) : pos < reply.length := by
  by_contra hle
  rw [List.drop_eq_nil_of_le (Nat.not_lt.mp hle)] at h
  cases h

theorem getElem?_of_standing (h : reply.drop pos = b :: rest) : reply[pos]? = some b := by
  rw [← List.head?_drop, h, List.head?_cons]

theorem drop_of_standing {l : List UInt8} (h : reply.drop pos = l ++ rest) :
    reply.drop (pos + l.length) = rest := by
  rw [← List.drop_drop, h, List.drop_left]

theorem length_of_standing (h : reply.drop pos = bytes) : bytes.length = reply.length - pos := by
  rw [← h, List.length_drop]

theorem wordAt_of_standing (h : reply.drop pos = high :: low :: rest) :
    wordAt reply pos = some (word16 high low) := by
  have hnext : reply.drop (pos + 1) = low :: rest := drop_of_standing (l := [high]) h
  rw [wordAt, getElem?_of_standing h, getElem?_of_standing hnext]
  rfl

theorem wordAt_bytes16 (hn : n < 2 ^ 16) (h : reply.drop pos = bytes16 n ++ rest) :
    wordAt reply pos = some n := by
  rw [wordAt_of_standing h, word16_ofNat hn]

end Standing

/-- The loop over a name leaves off where the name ends. -/
theorem skipName_of_standing {name : WireName} (hname : name.Valid)
    (h : reply.drop pos = name.encode ++ rest) :
    skipName reply pos = some (pos + name.encode.length) := by
  obtain ⟨labels, pointer⟩ := name
  induction labels generalizing pos with
  | nil =>
    cases pointer with
    | none =>
      rw [skipName, if_pos (lt_of_standing h), getElem?_of_standing h]
      rfl
    | some offset =>
      have hoffset : offset < 2 ^ 14 := hname.pointer offset rfl
      have hhigh : (UInt8.ofNat ((0xc000 + offset) / 256)).toNat = (0xc000 + offset) / 256 :=
        toNat_ofNat_of_lt (by omega)
      rw [skipName, if_pos (lt_of_standing h), getElem?_of_standing h, Option.bind_some,
        if_neg, if_pos]
      · rfl
      · rw [and_c0_eq_iff, hhigh]
        omega
      · intro hzero
        rw [hzero] at hhigh
        change 0 = _ at hhigh
        omega
  | cons label labels ih =>
    obtain ⟨hlabel, hlabels⟩ := List.forall_mem_cons.mp hname.labels
    have hbyte : (UInt8.ofNat label.length).toNat = label.length := toNat_ofNat_of_lt (by omega)
    rw [WireName.encode_cons, List.cons_append, List.append_assoc] at h
    have hrest : reply.drop (pos + (label.length + 1)) =
        WireName.encode ⟨labels, pointer⟩ ++ rest :=
      drop_of_standing (l := UInt8.ofNat label.length :: label) h
    rw [skipName, if_pos (lt_of_standing h), getElem?_of_standing h, Option.bind_some, if_neg,
      if_neg, hbyte, ih ⟨hlabels, hname.pointer⟩ hrest, WireName.encode_cons]
    · congr 1
      rw [List.length_cons, List.length_append]
      omega
    · rw [and_c0_eq_iff, hbyte]
      omega
    · intro hzero
      rw [hzero] at hbyte
      change 0 = _ at hbyte
      omega

/-- The loop over the questions leaves off where the section ends. -/
theorem skipQuestions_of_standing {questions : List Question}
    (hvalid : ∀ q ∈ questions, question.Valid q)
    (h : reply.drop pos = questions.flatMap question.encode ++ rest) :
    skipQuestions reply questions.length pos =
      some (pos + (questions.flatMap question.encode).length) := by
  induction questions generalizing pos with
  | nil => rfl
  | cons q questions ih =>
    obtain ⟨hq, hquestions⟩ := List.forall_mem_cons.mp hvalid
    have hname : q.name.Valid := hq.1
    rw [List.flatMap_cons, List.append_assoc] at h
    have hstart : reply.drop pos = q.name.encode ++ (bytes16 q.type ++ bytes16 q.qclass ++
        (questions.flatMap question.encode ++ rest)) := by
      rw [h, ← List.append_assoc q.name.encode]
      rfl
    have hlength : (question.encode q).length = q.name.encode.length + 4 := List.length_append
    have hlt : pos < reply.length := by
      have := length_of_standing h
      rw [List.length_append, hlength] at this
      omega
    have hrest := drop_of_standing h
    rw [List.length_cons]
    unfold skipQuestions
    rw [if_pos hlt, skipName_of_standing hname hstart, Option.bind_some, Nat.add_assoc, ← hlength,
      ih hquestions hrest, List.flatMap_cons, List.length_append, Nat.add_assoc]

/-- The first string of a TXT record, where it is whole and there is room for it. -/
def textOf (outLen : Nat) (r : Record) : Option Text :=
  if r.type = typeTxt then
    match r.rdata with
    | [] => none
    | segment :: strings =>
      if segment.toNat ≤ strings.length ∧ segment.toNat < outLen then
        some (strings.take segment.toNat)
      else none
  else none

theorem textOf_of_rdata {r : Record} {segment : UInt8} {strings : List UInt8}
    (htype : r.type = typeTxt) (hdata : r.rdata = segment :: strings) :
    textOf outLen r = if segment.toNat ≤ strings.length ∧ segment.toNat < outLen then
      some (strings.take segment.toNat) else none := by
  rw [textOf, if_pos htype, hdata]

/-- What stands behind the name of a record up to its data. -/
def fixedPart (r : Record) : List UInt8 :=
  bytes16 r.type ++ (bytes16 r.rclass ++ (long.encode r.ttl ++ bytes16 r.rdata.length))

theorem record_encode (r : Record) :
    record.encode r = r.name.encode ++ (fixedPart r ++ r.rdata) := by
  rw [fixedPart, List.append_assoc, List.append_assoc, List.append_assoc]
  rfl

/-- What the reader takes of one record. -/
structure ReadsRecord (reply : List UInt8) (r : Record) (pos next : Nat) : Prop where
  start_le : pos + 10 ≤ reply.length
  name : skipName reply pos = some next
  fixed_le : next + 10 ≤ reply.length
  type : wordAt reply next = some r.type
  rdlength : wordAt reply (next + 8) = some r.rdata.length
  rdata_le : next + 10 + r.rdata.length ≤ reply.length
  rdata : ∃ rest, reply.drop (next + 10) = r.rdata ++ rest

theorem reads_record {r : Record} (hvalid : record.Valid r)
    (h : reply.drop pos = record.encode r ++ rest) :
    ∃ next, ReadsRecord reply r pos next ∧
      next + 10 + r.rdata.length = pos + (record.encode r).length := by
  obtain ⟨hname, htype, -, -, hrdata⟩ := hvalid
  have hfixed : (fixedPart r).length = 10 := rfl
  have hlength : (record.encode r).length = r.name.encode.length + (10 + r.rdata.length) := by
    rw [record_encode, List.length_append, List.length_append, hfixed]
  have hall := length_of_standing h
  rw [List.length_append, hlength] at hall
  rw [record_encode, List.append_assoc, List.append_assoc] at h
  have hnext := drop_of_standing h
  have hcount : reply.drop (pos + r.name.encode.length + 8) =
      bytes16 r.rdata.length ++ (r.rdata ++ rest) := by
    rw [← List.drop_drop, hnext]
    rfl
  have hdata := drop_of_standing hnext
  rw [hfixed] at hdata
  have hpos := WireName.length_labels_lt r.name
  refine ⟨pos + r.name.encode.length, ⟨by omega, skipName_of_standing hname h, by omega,
    wordAt_bytes16 htype hnext, wordAt_bytes16 (counted_valid.mp hrdata) hcount, by omega,
    rest, hdata⟩, by omega⟩

/-- The loop over the answers finds the first text that there is. -/
theorem firstTxt_of_standing {records : List Record} (hvalid : ∀ r ∈ records, record.Valid r)
    (h : reply.drop pos = records.flatMap record.encode ++ rest) :
    firstTxt reply outLen records.length pos = some (records.findSome? (textOf outLen)) := by
  induction records generalizing pos with
  | nil => rfl
  | cons r records ih =>
    obtain ⟨hr, hrecords⟩ := List.forall_mem_cons.mp hvalid
    rw [List.flatMap_cons, List.append_assoc] at h
    obtain ⟨next, hreads, hend⟩ := reads_record hr h
    have hnext := ih hrecords (drop_of_standing h)
    obtain ⟨after, hrdata⟩ := hreads.rdata
    rw [List.length_cons, List.findSome?_cons]
    unfold firstTxt
    rw [if_pos hreads.start_le, hreads.name, Option.bind_some,
      if_neg (Nat.not_lt.mpr hreads.fixed_le), hreads.type, Option.bind_some, hreads.rdlength,
      Option.bind_some, if_neg (Nat.not_lt.mpr hreads.rdata_le), hend, hnext]
    by_cases htype : r.type = typeTxt
    · cases hdata : r.rdata with
      | nil =>
        rw [if_neg fun hand => absurd hand.2 (by decide), textOf, if_pos htype, hdata]
      | cons segment strings =>
        rw [hdata] at hrdata
        have hstrings : reply.drop (next + 10 + 1) = strings ++ after :=
          drop_of_standing (l := [segment]) hrdata
        have hle : next + 10 + (strings.length + 1) ≤ reply.length := by
          have := hreads.rdata_le
          rwa [hdata] at this
        rw [if_pos ⟨htype, Nat.succ_pos _⟩, getElem?_of_standing hrdata, Option.bind_some,
          List.length_cons, textOf_of_rdata htype hdata]
        by_cases hfits : segment.toNat ≤ strings.length ∧ segment.toNat < outLen
        · have hread : bytesAt reply (next + 10 + 1) segment.toNat =
              some (strings.take segment.toNat) := by
            rw [bytesAt, if_pos (by omega), hstrings, List.take_append_of_le_length hfits.1]
          rw [if_pos ⟨Nat.succ_le_succ hfits.1, hfits.2⟩, hread, if_pos hfits]
          rfl
        · rw [if_neg fun hand => hfits ⟨Nat.le_of_succ_le_succ hand.1, hand.2⟩, if_neg hfits]
    · rw [if_neg fun hand => htype hand.1, textOf, if_neg htype]

/-- What a message answers to the query: whatever the names, the first text there is. -/
def answerOf (outLen : Nat) (m : Message) : Except DnsError (Option Text) :=
  if m.flags % 16 = 3 then .ok none
  else if m.flags % 16 ≠ 0 then
    .error (networkError, literal "query refused: " ++ rcodeName (m.flags % 16))
  else .ok (m.answers.findSome? (textOf outLen))

/-- The reader takes from the bytes of a message what the message answers. -/
theorem queryReply_encode {m : Message} (hvalid : message.Valid m) :
    queryReply (message.encode m ++ rest) outLen = some (answerOf outLen m) := by
  obtain ⟨⟨-, hflags, hqd, han, -⟩, ⟨-, hquestions⟩, ⟨-, hanswers⟩, -⟩ := hvalid
  have hflag : (message.encode m ++ rest)[3]? = some (UInt8.ofNat m.flags) := rfl
  have hrcode : (UInt8.ofNat m.flags &&& 0x0f).toNat = m.flags % 16 := by
    rw [and_0f_toNat, UInt8.toNat_ofNat']
    omega
  have hancount : wordAt (message.encode m ++ rest) 6 = some m.answers.length :=
    wordAt_bytes16 han rfl
  have hqdcount : wordAt (message.encode m ++ rest) 4 = some m.questions.length :=
    wordAt_bytes16 hqd rfl
  have hbody : (message.encode m ++ rest).drop 12 = m.questions.flatMap question.encode ++
      (m.answers.flatMap record.encode ++ (m.authority.flatMap record.encode ++
        m.additional.flatMap record.encode ++ rest)) := by
    rw [← List.append_assoc (m.answers.flatMap _), ← List.append_assoc (m.questions.flatMap _)]
    rfl
  have hheader : 12 ≤ (message.encode m ++ rest).length :=
    Nat.le_add_left 12 (((message.encode m ++ rest).drop 12).length)
  rw [queryReply, if_neg (Nat.not_lt.mpr hheader), hflag, Option.bind_some, hrcode, answerOf]
  dsimp only
  split
  · rfl
  · split
    · rfl
    · rw [hancount, Option.bind_some]
      split
      · next hnone => rw [List.length_eq_zero_iff.mp hnone, List.findSome?_nil]
      · rw [hqdcount, Option.bind_some, skipQuestions_of_standing hquestions hbody,
          Option.bind_some, firstTxt_of_standing hanswers (drop_of_standing hbody)]
        rfl

/-- Of a message in the format the reader takes what the message answers. -/
theorem query_answers {m : Message} (h : message.take reply = some (m, rest)) :
    queryReply reply outLen = some (answerOf outLen m) := by
  obtain ⟨hvalid, rfl⟩ := (message.take_eq_some ..).mp h
  exact queryReply_encode hvalid

/-- A reply that repeats its question, and gives its one answer a compressed name. -/
theorem query_answers_compressed :
    queryReply [0, 7, 0x84, 0, 0, 1, 0, 1, 0, 0, 0, 0, 1, 97, 0, 0, 16, 0, 1,
      0xc0, 12, 0, 16, 0, 1, 0, 0, 0, 60, 0, 4, 3, 100, 105, 100] 512 =
      some (.ok (some [100, 105, 100])) := by
  have htake : message.take [0, 7, 0x84, 0, 0, 1, 0, 1, 0, 0, 0, 0, 1, 97, 0, 0, 16, 0, 1,
      0xc0, 12, 0, 16, 0, 1, 0, 0, 0, 60, 0, 4, 3, 100, 105, 100] =
        some (⟨7, 0x8400, [⟨.full [[97]], 16, 1⟩],
          [⟨⟨[], some 12⟩, 16, 1, 60, [3, 100, 105, 100]⟩], [], []⟩, []) := rfl
  exact query_answers htake

/-! ## The records of a name -/

/-- The data of a TXT record: its strings, each behind its length. -/
def TxtRecord.rdata (r : TxtRecord) : List UInt8 := (r.first :: r.more).flatMap encodeLabel

/-- A record of the answer that holds a TXT record. -/
def Answers (a : Record) (r : TxtRecord) : Prop := a.type = typeTxt ∧ a.rdata = r.rdata

theorem textOf_answers {a : Record} {r : TxtRecord} (hanswers : Answers a r)
    (hlt : r.first.length < 256) : textOf 512 a = some r.first := by
  have hrdata : a.rdata =
      UInt8.ofNat r.first.length :: (r.first ++ r.more.flatMap encodeLabel) := hanswers.2
  have hlength : (UInt8.ofNat r.first.length).toNat = r.first.length := toNat_ofNat_of_lt hlt
  rw [textOf_of_rdata hanswers.1 hrdata, hlength, if_pos, List.take_left]
  rw [List.length_append]
  omega

/-- The lookup shows the first of the records that the server holds and answers with, as the
provider's records are looked up: the first string of each has its length in one byte. -/
theorem lookup_shows_records {m : Message} {records : List TxtRecord}
    (h : message.take reply = some (m, rest)) (hcode : m.flags % 16 = 0)
    (hanswers : List.Forall₂ Answers m.answers records)
    (hfits : ∀ r ∈ records, r.first.length < 256) :
    lookupReply reply =
      some ((rfc2136Lookup records true).map (Option.map DnsRecord.content)) := by
  have hanswer : answerOf 512 m = .ok (m.answers.findSome? (textOf 512)) := by
    rw [answerOf, if_neg, if_neg] <;> omega
  obtain ⟨hvalid, rfl⟩ := (message.take_eq_some ..).mp h
  rw [lookupReply, queryReply_encode hvalid, hanswer]
  generalize m.answers = answers at hanswers
  cases hanswers with
  | nil => rfl
  | cons hfirst hmore =>
    rw [List.findSome?_cons, textOf_answers hfirst (hfits _ List.mem_cons_self)]
    rfl

/-- Of two records the first is shown. -/
theorem lookup_shows_first :
    lookupReply [0, 7, 0x84, 0, 0, 0, 0, 2, 0, 0, 0, 0, 1, 97, 0, 0, 16, 0, 1, 0, 0, 0, 60, 0, 4,
      3, 100, 105, 100, 0xc0, 12, 0, 16, 0, 1, 0, 0, 0, 60, 0, 2, 1, 100] =
      some ((rfc2136Lookup [.single 0 [100, 105, 100], .single 1 [100]] true).map
        (Option.map DnsRecord.content)) := by
  have htake : message.take [0, 7, 0x84, 0, 0, 0, 0, 2, 0, 0, 0, 0, 1, 97, 0, 0, 16, 0, 1, 0, 0, 0,
      60, 0, 4, 3, 100, 105, 100, 0xc0, 12, 0, 16, 0, 1, 0, 0, 0, 60, 0, 2, 1, 100] =
        some (⟨7, 0x8400, [], [⟨.full [[97]], 16, 1, 60, [3, 100, 105, 100]⟩,
          ⟨⟨[], some 12⟩, 16, 1, 60, [1, 100]⟩], [], []⟩, []) := rfl
  refine lookup_shows_records htake rfl (.cons ⟨rfl, rfl⟩ (.cons ⟨rfl, rfl⟩ .nil)) fun r hr => ?_
  obtain rfl | hr := List.mem_cons.mp hr
  · decide
  · obtain rfl := List.mem_singleton.mp hr
    decide

end MetalBear.Dns
