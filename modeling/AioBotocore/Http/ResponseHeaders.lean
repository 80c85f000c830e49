/-
What `AIOHTTPSession.send` and `HttpxSession.send` put in the headers of a response.

The aiohttp backend makes a dict of the raw fields, under the names in lower case. The httpx backend takes the items of
`response.headers`, where repeated fields are joined, and makes an `HTTPHeaders` of them. Both end in the `HeadersDict` of
the response.

`HttpxHeaders` is the header multi-map of `httpx`.

- `lookup_update`: fields put in a dict one after the other leave the last value of each name.
- `aiohttp_get`, `httpx_get`: the value that each backend holds for a name.
- `same_headers_iff`: both hold the same values and lose none iff no name is repeated and every value is UTF-8.
- `repeated_field_lost`: two cookies.
-/
import Mathlib
import AioBotocore.Octets

namespace AioBotocore.Http.ResponseHeaders

open Octets

/-! ## Dicts -/

/-- a dict, or with names in lower case the dict in a `HeadersDict` -/
abbrev Dict : Type := AList fun _ : String => String

/-- `d[key] = value` for each pair -/
def update (d : Dict) (pairs : List (String × String)) : Dict := pairs.foldl (fun d z => AList.insert z.1 z.2 d) d

def valuesOf (key : String) (pairs : List (String × String)) : List String :=
  (pairs.filter fun z => z.1 == key).map Prod.snd

theorem mem_valuesOf {key v : String} {pairs : List (String × String)} :
    v ∈ valuesOf key pairs ↔ (key, v) ∈ pairs := by
  simp only [valuesOf, List.mem_map, List.mem_filter, beq_iff_eq]
  constructor
  · intro h
    obtain ⟨z, ⟨hz, hkey⟩, hv⟩ := h
    rwa [← hkey, ← hv]
  · intro h
    exact ⟨(key, v), ⟨h, rfl⟩, rfl⟩

theorem valuesOf_cons (key : String) (z : String × String) (pairs : List (String × String)) :
    valuesOf key (z :: pairs) = if z.1 = key then z.2 :: valuesOf key pairs else valuesOf key pairs := by
  by_cases h : z.1 = key
  · simp [valuesOf, h]
  · simp [valuesOf, h]

theorem lookup_update_or (d : Dict) (pairs : List (String × String)) (key : String) :
    (update d pairs).lookup key = (valuesOf key pairs).getLast?.or (d.lookup key) := by
  induction pairs generalizing d with
  | nil => rfl
  | cons z pairs ih =>
    have hstep : (update d (z :: pairs)).lookup key =
        (valuesOf key pairs).getLast?.or ((AList.insert z.1 z.2 d).lookup key) := ih _
    rw [hstep, valuesOf_cons]
    by_cases h : z.1 = key
    · rw [if_pos h, ← h, AList.lookup_insert]
      cases hvalues : valuesOf z.1 pairs with
      | nil => rfl
      | cons v vs => simp [List.getLast?_cons]
    · rw [if_neg h, AList.lookup_insert_ne fun heq => h heq.symm]

theorem lookup_update (pairs : List (String × String)) (key : String) :
    (update ∅ pairs).lookup key = (valuesOf key pairs).getLast? := by
  rw [lookup_update_or, AList.lookup_empty, Option.or_none]

/-- each name has one value -/
def Functional (pairs : List (String × String)) : Prop := ∀ z ∈ pairs, ∀ z' ∈ pairs, z.1 = z'.1 → z.2 = z'.2

theorem lookup_update_iff {pairs : List (String × String)} (h : Functional pairs) (key v : String) :
    (update ∅ pairs).lookup key = some v ↔ (key, v) ∈ pairs := by
  rw [lookup_update]
  constructor
  · intro hlast
    exact mem_valuesOf.1 (List.mem_of_getLast? hlast)
  · intro hmem
    have hne : valuesOf key pairs ≠ [] := List.ne_nil_of_mem (mem_valuesOf.2 hmem)
    obtain ⟨w, hw⟩ := Option.isSome_iff_exists.1 (List.getLast?_isSome.2 hne)
    have hvw : v = w := h (key, v) hmem (key, w) (mem_valuesOf.1 (List.mem_of_getLast? hw)) rfl
    rw [hw, hvw]

/-! ## Model -/

/-- a field of a response; its name is a token -/
structure Field where
  name : Bytes
  value : Bytes
  ascii : isAscii name = true

/-- `HeadersDict(pairs)` -/
def headersDict (pairs : List (String × String)) : Dict := update ∅ (pairs.map fun z => (lower z.1, z.2))

/-- `headers.get(name)` of a `HeadersDict` -/
def get (headers : Dict) (name : String) : Option String := headers.lookup (lower name)

/-- `k.decode('utf-8').lower(), v.decode('utf-8')` -/
def decodedPair (f : Field) : Option (String × String) :=
  (decodeUtf8 f.name).bind fun k => (decodeUtf8 f.value).map fun v => (lower k, v)

/-- the headers of `AIOHTTPSession.send`; `none` is the `UnicodeDecodeError`, which leaves as an `HTTPClientError` -/
def aiohttpHeaders (fields : List Field) : Option Dict :=
  (fields.mapM decodedPair).map fun pairs => headersDict ((update ∅ pairs).entries.map fun e => (e.1, e.2))

/-- the `encoding` of an `httpx.Headers`: the first of ASCII, UTF-8 and ISO-8859-1 that decodes all names and values -/
def encoding (fields : List Field) (s : Bytes) : String :=
  if fields.all fun f => isAscii f.name && isAscii f.value then decodeLatin1 s
  else if fields.all fun f => (decodeUtf8 f.name).isSome && (decodeUtf8 f.value).isSome then (decodeUtf8 s).getD ""
  else decodeLatin1 s

def httpxPair (fields : List Field) (f : Field) : String × String :=
  (lower (encoding fields f.name), encoding fields f.value)

/-- `httpx.Headers`: its items are the names in lower case, each with its values joined by commas -/
structure HttpxHeaders where
  items : List Field → List (String × String)
  mem_items : ∀ fields key value, (key, value) ∈ items fields ↔
    valuesOf key (fields.map (httpxPair fields)) ≠ [] ∧
      value = ", ".intercalate (valuesOf key (fields.map (httpxPair fields)))

/-- `message[name]` of an `HTTPHeaders`: the first field of this name -/
def messageGet (message : List (String × String)) (name : String) : Option String :=
  (message.find? fun z => lower z.1 == lower name).map Prod.snd

/-- `HTTPHeaders.from_pairs` adds every pair as a field; a `HeadersDict` of it takes `message[key]` for each key -/
def fromPairs (pairs : List (String × String)) : Dict :=
  headersDict (pairs.filterMap fun z => (messageGet pairs z.1).map fun v => (z.1, v))

variable (P : HttpxHeaders)

/-- the headers of `HttpxSession.send` -/
def httpxHeaders (fields : List Field) : Dict := fromPairs (P.items fields)

/-! ## The same headers -/

/-- values under one name, combined -/
def join : List String → Option String
  | [] => none
  | v :: vs => some (", ".intercalate (v :: vs))

/-- the received values of a name -/
def received (fields : List Field) (name : String) : List String :=
  valuesOf (lower name) (fields.filterMap decodedPair)

/-- neither send fails, both hold the same for every name, and this is all that was received -/
def Same (fields : List Field) : Prop :=
  ∃ headers, aiohttpHeaders fields = some headers ∧
    ∀ name, get headers name = get (httpxHeaders P fields) name ∧ get headers name = join (received fields name)

theorem lower_lower (s : String) : lower (lower s) = lower s := by
  simp [lower, Function.comp_def, Char.toLower_toLower_eq_toLower]

theorem get_headersDict {pairs : List (String × String)} (h : Functional pairs)
    (hlow : ∀ z ∈ pairs, lower z.1 = z.1) (name v : String) :
    get (headersDict pairs) name = some v ↔ (lower name, v) ∈ pairs := by
  have hsame : pairs.map (fun z => (lower z.1, z.2)) = pairs := by
    calc pairs.map (fun z => (lower z.1, z.2)) = pairs.map id := by
          apply List.map_congr_left
          intro z hz
          rw [hlow z hz]
          rfl
      _ = pairs := List.map_id _
  rw [get, headersDict, hsame]
  exact lookup_update_iff h _ v

theorem functional_entries (d : Dict) : Functional (d.entries.map fun e => (e.1, e.2)) := by
  intro z hz z' hz' hkey
  obtain ⟨e, he, rfl⟩ := List.mem_map.1 hz
  obtain ⟨e', he', rfl⟩ := List.mem_map.1 hz'
  have hlookup : d.lookup e.1 = some e.2 := AList.mem_lookup_iff.2 he
  have hlookup' : d.lookup e'.1 = some e'.2 := AList.mem_lookup_iff.2 he'
  have hkey' : e.1 = e'.1 := hkey
  rw [hkey', hlookup'] at hlookup
  exact (Option.some.inj hlookup).symm

theorem decodedPair_lower {f : Field} {z : String × String} (h : decodedPair f = some z) : lower z.1 = z.1 := by
  obtain ⟨k, -, hmap⟩ := Option.bind_eq_some_iff.1 h
  obtain ⟨v, -, rfl⟩ := Option.map_eq_some_iff.1 hmap
  exact lower_lower k

theorem lower_of_mem {pairs : List (String × String)} (hlow : ∀ z ∈ pairs, lower z.1 = z.1)
    {e : Sigma fun _ : String => String} (he : e ∈ (update ∅ pairs).entries) : lower e.1 = e.1 := by
  have hlookup : (update ∅ pairs).lookup e.1 = some e.2 := AList.mem_lookup_iff.2 he
  rw [lookup_update] at hlookup
  exact hlow _ (mem_valuesOf.1 (List.mem_of_getLast? hlookup))

/-- the dict of the aiohttp backend holds the last value of a name -/
theorem get_lowered {pairs : List (String × String)} (hlow : ∀ z ∈ pairs, lower z.1 = z.1) (name : String) :
    get (headersDict ((update ∅ pairs).entries.map fun e => (e.1, e.2))) name =
      (valuesOf (lower name) pairs).getLast? := by
  have hkeys : ∀ z ∈ (update ∅ pairs).entries.map (fun e => (e.1, e.2)), lower z.1 = z.1 := by
    intro z hz
    obtain ⟨e, he, rfl⟩ := List.mem_map.1 hz
    exact lower_of_mem hlow he
  rw [← lookup_update]
  apply Option.ext
  intro v
  rw [get_headersDict (functional_entries _) hkeys]
  constructor
  · intro h
    obtain ⟨e, he, heq⟩ := List.mem_map.1 h
    obtain ⟨hkey, rfl⟩ := Prod.mk.inj heq
    rw [← hkey]
    exact AList.mem_lookup_iff.2 he
  · intro h
    exact List.mem_map.2 ⟨⟨lower name, v⟩, AList.mem_lookup_iff.1 h, rfl⟩

theorem messageGet_of_mem {pairs : List (String × String)} (h : Functional pairs) (hlow : ∀ z ∈ pairs, lower z.1 = z.1)
    {z : String × String} (hz : z ∈ pairs) : messageGet pairs z.1 = some z.2 := by
  unfold messageGet
  cases hfind : pairs.find? fun z' => lower z'.1 == lower z.1 with
  | none =>
    have hno := List.find?_eq_none.1 hfind z hz
    simp at hno
  | some z' =>
    have hz' : z' ∈ pairs := List.mem_of_find?_eq_some hfind
    have hkey : lower z'.1 = lower z.1 := by simpa using List.find?_some hfind
    rw [hlow z' hz', hlow z hz] at hkey
    rw [Option.map_some, h z' hz' z hz hkey]

theorem get_fromPairs {pairs : List (String × String)} (h : Functional pairs) (hlow : ∀ z ∈ pairs, lower z.1 = z.1)
    (name v : String) : get (fromPairs pairs) name = some v ↔ (lower name, v) ∈ pairs := by
  have hsame : (pairs.filterMap fun z => (messageGet pairs z.1).map fun v => (z.1, v)) = pairs := by
    calc (pairs.filterMap fun z => (messageGet pairs z.1).map fun v => (z.1, v)) = pairs.filterMap some := by
          apply List.filterMap_congr
          intro z hz
          rw [messageGet_of_mem h hlow hz]
          rfl
      _ = pairs := List.filterMap_some
  rw [fromPairs, hsame]
  exact get_headersDict h hlow name v

theorem join_eq_some_iff (vs : List String) (v : String) : join vs = some v ↔ vs ≠ [] ∧ v = ", ".intercalate vs := by
  cases vs with
  | nil => simp [join]
  | cons w vs => simp [join, eq_comm]

/-- the headers of the httpx backend hold all values of a name, joined -/
theorem httpx_get (fields : List Field) (name : String) :
    get (httpxHeaders P fields) name = join (valuesOf (lower name) (fields.map (httpxPair fields))) := by
  have hfun : Functional (P.items fields) := by
    intro z hz z' hz' hkey
    have hvalue := ((P.mem_items fields z.1 z.2).1 hz).2
    have hvalue' := ((P.mem_items fields z'.1 z'.2).1 hz').2
    rw [hvalue, hvalue', hkey]
  have hlow : ∀ z ∈ P.items fields, lower z.1 = z.1 := by
    intro z hz
    obtain ⟨v, hv⟩ := List.exists_mem_of_ne_nil _ ((P.mem_items fields z.1 z.2).1 hz).1
    obtain ⟨f, -, hf⟩ := List.mem_map.1 (mem_valuesOf.1 hv)
    rw [← (Prod.mk.inj hf).1]
    exact lower_lower _
  apply Option.ext
  intro v
  rw [httpxHeaders, get_fromPairs hfun hlow, P.mem_items, join_eq_some_iff]

theorem mapM_some {α β : Type} {g : α → Option β} {h : α → β} {l : List α} (hl : ∀ a ∈ l, g a = some (h a)) :
    l.mapM g = some (l.map h) := by
  induction l with
  | nil => rfl
  | cons a l ih =>
    rw [List.mapM_cons, hl a List.mem_cons_self, ih fun b hb => hl b (List.mem_cons_of_mem a hb)]
    rfl

theorem isSome_of_mapM {α β : Type} {g : α → Option β} {l : List α} {l' : List β} (hl : l.mapM g = some l') {a : α}
    (ha : a ∈ l) : (g a).isSome := by
  induction l generalizing l' with
  | nil => cases ha
  | cons b l ih =>
    rw [List.mapM_cons] at hl
    obtain ⟨c, hc, hrest⟩ := Option.bind_eq_some_iff.1 hl
    obtain ⟨l'', hl'', -⟩ := Option.bind_eq_some_iff.1 hrest
    rcases List.mem_cons.1 ha with rfl | ha
    · rw [hc]
      rfl
    · exact ih hl'' ha

/-- every value is UTF-8 -/
def Decodes (fields : List Field) : Prop := ∀ f ∈ fields, (decodeUtf8 f.value).isSome

/-- where UTF-8 decodes everything, httpx finds the same text -/
theorem encoding_eq {fields : List Field} (h : Decodes fields) {f : Field} (hf : f ∈ fields) :
    decodeUtf8 f.name = some (encoding fields f.name) ∧ decodeUtf8 f.value = some (encoding fields f.value) := by
  unfold encoding
  by_cases hascii : (fields.all fun f => isAscii f.name && isAscii f.value) = true
  · have hvalue : isAscii f.value = true := (Bool.and_eq_true_iff.1 (List.all_eq_true.1 hascii f hf)).2
    rw [if_pos hascii, if_pos hascii]
    exact ⟨decodeUtf8_of_isAscii f.ascii, decodeUtf8_of_isAscii hvalue⟩
  · have hutf8 : (fields.all fun f => (decodeUtf8 f.name).isSome && (decodeUtf8 f.value).isSome) = true := by
      rw [List.all_eq_true]
      intro g hg
      rw [decodeUtf8_of_isAscii g.ascii, h g hg]
      rfl
    obtain ⟨v, hv⟩ := Option.isSome_iff_exists.1 (h f hf)
    rw [if_neg hascii, if_pos hutf8, if_neg hascii, if_pos hutf8, hv, decodeUtf8_of_isAscii f.ascii]
    exact ⟨rfl, rfl⟩

theorem decodedPair_eq {fields : List Field} (h : Decodes fields) {f : Field} (hf : f ∈ fields) :
    decodedPair f = some (httpxPair fields f) := by
  obtain ⟨hname, hvalue⟩ := encoding_eq h hf
  rw [decodedPair, hname, hvalue]
  rfl

theorem received_eq {fields : List Field} (h : Decodes fields) (name : String) :
    received fields name = valuesOf (lower name) (fields.map (httpxPair fields)) := by
  have hpairs : fields.filterMap decodedPair = fields.map (httpxPair fields) := by
    calc fields.filterMap decodedPair = fields.filterMap fun f => some (httpxPair fields f) :=
          List.filterMap_congr fun f hf => decodedPair_eq h hf
      _ = fields.map (httpxPair fields) := List.filterMap_eq_map_iff_forall_eq_some.2 fun _ _ => rfl
  rw [received, hpairs]

/-- the headers of the aiohttp backend hold the last value of a name -/
theorem aiohttp_get {fields : List Field} (h : Decodes fields) :
    ∃ headers, aiohttpHeaders fields = some headers ∧
      ∀ name, get headers name = (valuesOf (lower name) (fields.map (httpxPair fields))).getLast? := by
  have hlow : ∀ z ∈ fields.map (httpxPair fields), lower z.1 = z.1 := by
    intro z hz
    obtain ⟨f, hf, rfl⟩ := List.mem_map.1 hz
    exact decodedPair_lower (decodedPair_eq h hf)
  rw [aiohttpHeaders, mapM_some fun f hf => decodedPair_eq h hf]
  exact ⟨_, rfl, get_lowered hlow⟩

theorem decodes_of_aiohttp {fields : List Field} {headers : Dict} (h : aiohttpHeaders fields = some headers) :
    Decodes fields := by
  intro f hf
  obtain ⟨pairs, hpairs, -⟩ := Option.map_eq_some_iff.1 h
  obtain ⟨z, hz⟩ := Option.isSome_iff_exists.1 (isSome_of_mapM hpairs hf)
  obtain ⟨k, -, hmap⟩ := Option.bind_eq_some_iff.1 hz
  obtain ⟨v, hv, -⟩ := Option.map_eq_some_iff.1 hmap
  rw [hv]
  rfl

/-- a joined value is at least as long as its last part -/
theorem length_getLast_le (v : String) (vs : List String) :
    ((v :: vs).getLast (List.cons_ne_nil v vs)).length ≤ (", ".intercalate (v :: vs)).length := by
  induction vs generalizing v with
  | nil => rw [List.getLast_singleton, String.intercalate_singleton]
  | cons w vs ih =>
    rw [List.getLast_cons (List.cons_ne_nil w vs), String.intercalate_cons_cons, String.length_append]
    exact (ih w).trans (Nat.le_add_left _ _)

theorem getLast_eq_join_iff (vs : List String) : vs.getLast? = join vs ↔ vs.length ≤ 1 := by
  cases vs with
  | nil => simp [join]
  | cons v vs =>
    cases vs with
    | nil => simp [join]
    | cons w vs =>
      rw [join, List.getLast?_eq_getLast_of_ne_nil (List.cons_ne_nil _ _), Option.some_inj,
        List.getLast_cons (List.cons_ne_nil w vs), String.intercalate_cons_cons]
      constructor
      · intro h
        have hlong := length_getLast_le w vs
        rw [h, String.length_append, String.length_append] at hlong
        have hcomma : ", ".length = 2 := by decide
        omega
      · intro h
        simp at h

/-- the name of a field, in lower case -/
def Field.key (f : Field) : String := lower (decodeLatin1 f.name)

/-- no name is repeated, in any case, and every value is UTF-8 -/
def Single (fields : List Field) : Prop := (fields.map Field.key).Nodup ∧ Decodes fields

theorem httpxPair_key {fields : List Field} (h : Decodes fields) {f : Field} (hf : f ∈ fields) :
    (httpxPair fields f).1 = f.key := by
  have hname := (encoding_eq h hf).1
  rw [decodeUtf8_of_isAscii f.ascii] at hname
  rw [httpxPair, Field.key, Option.some.inj hname]

theorem length_valuesOf {fields : List Field} (h : Decodes fields) (key : String) :
    (valuesOf key (fields.map (httpxPair fields))).length = (fields.map Field.key).count key := by
  have hkeys : (fields.map (httpxPair fields)).map Prod.fst = fields.map Field.key := by
    rw [List.map_map]
    exact List.map_congr_left fun f hf => httpxPair_key h hf
  calc (valuesOf key (fields.map (httpxPair fields))).length
      = ((fields.map (httpxPair fields)).filter fun z => z.1 == key).length := by rw [valuesOf, List.length_map]
    _ = ((fields.map (httpxPair fields)).map Prod.fst).count key := by
        rw [List.count, List.countP_map, List.countP_eq_length_filter]
        rfl
    _ = (fields.map Field.key).count key := by rw [hkeys]

theorem nodup_iff {fields : List Field} (h : Decodes fields) :
    (fields.map Field.key).Nodup ↔
      ∀ name, (valuesOf (lower name) (fields.map (httpxPair fields))).length ≤ 1 := by
  rw [List.nodup_iff_count_le_one]
  constructor
  · intro hcount name
    rw [length_valuesOf h]
    exact hcount (lower name)
  · intro hlen key
    by_cases hkey : key ∈ fields.map Field.key
    · obtain ⟨f, -, rfl⟩ := List.mem_map.1 hkey
      have hlow : lower f.key = f.key := lower_lower _
      rw [← length_valuesOf h, ← hlow]
      exact hlen f.key
    · rw [List.count_eq_zero_of_not_mem hkey]
      exact Nat.zero_le 1

/-- **When both backends expose the same headers.** For every list of fields, both sends succeed, hold the same value for
every name and lose none iff no name is repeated and every value is UTF-8. -/
theorem same_headers_iff (fields : List Field) : Same P fields ↔ Single fields := by
  constructor
  · intro h
    obtain ⟨headers, hheaders, hsame⟩ := h
    have hdec : Decodes fields := decodes_of_aiohttp hheaders
    obtain ⟨headers', hheaders', hget⟩ := aiohttp_get hdec
    rw [hheaders] at hheaders'
    obtain rfl := Option.some.inj hheaders'
    refine ⟨(nodup_iff hdec).2 ?_, hdec⟩
    intro name
    have heq := (hsame name).1
    rw [hget, httpx_get] at heq
    exact (getLast_eq_join_iff _).1 heq
  · intro h
    obtain ⟨hnodup, hdec⟩ := h
    obtain ⟨headers, hheaders, hget⟩ := aiohttp_get hdec
    refine ⟨headers, hheaders, ?_⟩
    intro name
    have hone := (getLast_eq_join_iff _).2 ((nodup_iff hdec).1 hnodup name)
    rw [hget, httpx_get, received_eq hdec]
    exact ⟨hone, hone⟩

/-! ## An instance -/

/-- each name once, with its values joined -/
def commaJoined : HttpxHeaders where
  items fields := ((fields.map (httpxPair fields)).map Prod.fst).dedup.map fun key =>
    (key, ", ".intercalate (valuesOf key (fields.map (httpxPair fields))))
  mem_items := by
    intro fields key value
    have hmem : key ∈ (fields.map (httpxPair fields)).map Prod.fst ↔
        valuesOf key (fields.map (httpxPair fields)) ≠ [] := by
      rw [List.mem_map]
      constructor
      · intro h
        obtain ⟨z, hz, rfl⟩ := h
        exact List.ne_nil_of_mem (mem_valuesOf.2 hz)
      · intro h
        obtain ⟨v, hv⟩ := List.exists_mem_of_ne_nil _ h
        exact ⟨(key, v), mem_valuesOf.1 hv, rfl⟩
    rw [← hmem, List.mem_map]
    constructor
    · intro h
      obtain ⟨key', hkey', heq⟩ := h
      obtain ⟨rfl, rfl⟩ := Prod.mk.inj heq
      exact ⟨List.mem_dedup.1 hkey', rfl⟩
    · intro h
      exact ⟨key, List.mem_dedup.2 h.1, by rw [h.2]⟩

/-- `set-cookie` -/
def setCookie : Bytes := [115, 101, 116, 45, 99, 111, 111, 107, 105, 101]

/-- `set-cookie: a` and `set-cookie: b` -/
def twoCookies : List Field := [⟨setCookie, [97], by decide⟩, ⟨setCookie, [98], by decide⟩]

/-- **A repeated field is lost** by the aiohttp backend: of two cookies it holds the second, where httpx holds both. -/
theorem repeated_field_lost : ¬ ∀ fields, Same commaJoined fields := by
  intro hall
  obtain ⟨headers, hheaders, hsame⟩ := hall twoCookies
  have heq := (hsame "Set-Cookie").1
  obtain rfl := Option.some.inj hheaders
  revert heq
  decide

end AioBotocore.Http.ResponseHeaders
