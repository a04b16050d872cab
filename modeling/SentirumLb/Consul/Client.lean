import SentirumLb.Consul.KvRoutes
import SentirumLb.Lib.Latest
import SentirumLb.Lib.Utf8

/-! # Answers for the key-value store

What Consul answers to a question for the keys under a prefix is read as pairs
of keys and values. Values that are blank or cannot be decoded are left out.
Certificates are wanted by the last segment of their keys.
-/

namespace SentirumLb

namespace Consul

structure KvResponse where
  status : ℕ
  statusText : String
  consulIndex : Option String
  body : Except String String

class KvCodec where
  pairs : String → Except String (List (String × Option String))
  decode : String → Option (List UInt8)

abbrev KvEntries := Std.TreeMap String (List UInt8)

def readSuccessBody (response : KvResponse) (endpoint : String) : Except String String :=
  match response.body with
  | .error e => .error s!"Request error: {e}"
  | .ok body =>
      if 200 ≤ response.status ∧ response.status < 300 then .ok body
      else
        let status := response.statusText
        .error s!"Consul API error: {endpoint} returned HTTP {status}: {body}"

def KvResponse.newIndex (response : KvResponse) : ℕ :=
  (response.consulIndex.bind (Text.parseNat (2 ^ 64))).getD 0

section Code

variable [KvCodec]

def decodePair (kv : String × Option String) : Option (String × List UInt8) :=
  let rawValue := kv.2.getD ""
  if Text.trim rawValue = "" then none
  else (KvCodec.decode (Text.trim rawValue)).map fun value => (kv.1, value)

def watchKvPairs (path : String) (answer : Except String KvResponse) :
    Except String (List (String × List UInt8) × ℕ) :=
  match answer with
  | .error e => .error e
  | .ok response =>
      if response.status = 404 then .ok ([], response.newIndex)
      else
        match readSuccessBody response s!"KV watch for path '{path}'" with
        | .error e => .error e
        | .ok body =>
            match KvCodec.pairs body with
            | .error e =>
                .error
                  s!"Parse error: failed to parse response from KV watch for path '{path}': {e}"
            | .ok kvPairs => .ok (kvPairs.filterMap decodePair, response.newIndex)

def basename (key : String) : String :=
  let segment := ((Text.split '/' key).getLast?).getD ""
  if segment ≠ "" then segment else key

def basenameEntries (pairs : List (String × List UInt8)) : KvEntries :=
  pairs.foldl (fun entries pair => entries.insert (basename pair.1) pair.2) ∅

def watchKvBasenames (path : String) (answer : Except String KvResponse) :
    Except String (KvEntries × ℕ) :=
  (watchKvPairs path answer).map fun (pairs, newIndex) => (basenameEntries pairs, newIndex)

end Code

theorem getElem?_basenameEntries (pairs : List (String × List UInt8)) (name : String) :
    (basenameEntries pairs)[name]? = Latest.latest
      (fun pair => if basename pair.1 = name then some (some pair.2) else none) none pairs := by
  induction pairs using List.reverseRecOn with
  | nil => exact Std.TreeMap.getElem?_emptyc
  | append_singleton pairs pair ih =>
    have hinsert : basenameEntries (pairs ++ [pair]) =
        (basenameEntries pairs).insert (basename pair.1) pair.2 := List.foldl_concat ..
    rw [hinsert, Latest.latest_concat, Std.TreeMap.getElem?_insert, ih]
    by_cases hname : basename pair.1 = name
    · simp [hname]
    · simp [hname]

end Consul

end SentirumLb
