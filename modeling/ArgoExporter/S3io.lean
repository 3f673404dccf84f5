/-
  ArgoExporter.S3io

  `s3io.py`: object keys, downloads and uploads.  A store is the contents of
  one bucket; how a request ends is an input of the model.
-/

import ArgoExporter.Config

namespace ArgoExporter.S3io

open ArgoExporter.Py

/-- Canonical key of an object under a prefix; an empty prefix is the bucket root. -/
def objectKey (pfx name : String) : String :=
  let pfx := Config.normalizeS3Prefix pfx
  if pfx = "" then name else pfx ++ "/" ++ name

/-- Two prefixes give an object one key exactly when they have one canonical form. -/
theorem objectKey_eq_iff (a b name : String) :
    objectKey a name = objectKey b name ↔
      Config.normalizeS3Prefix a = Config.normalizeS3Prefix b := by
  constructor
  · intro h
    have hchars := congrArg String.toList h
    simp only [objectKey] at hchars
    -- a key with a prefix is longer than the bare name
    split_ifs at hchars with ha hb hb
    · rw [ha, hb]
    · have := congrArg List.length hchars
      simp at this
      omega
    · have := congrArg List.length hchars
      simp at this
      omega
    · simp only [String.toList_append] at hchars
      have hslash := List.append_cancel_right hchars
      exact String.toList_inj.mp (List.append_cancel_right hslash)
  · intro h
    simp only [objectKey, h]

/-- The objects of one bucket. -/
abbrev ObjectStore (Bytes : Type) := String → Option Bytes

section Requests

variable {Bytes : Type}

/-- The store after a whole object is written under `key`. -/
def ObjectStore.write (store : ObjectStore Bytes) (key : String) (data : Bytes) :
    ObjectStore Bytes :=
  fun k => if k = key then some data else store k

@[simp] theorem ObjectStore.write_self (store : ObjectStore Bytes) (key : String) (data : Bytes) :
    store.write key data key = some data := if_pos rfl

theorem ObjectStore.write_ne (store : ObjectStore Bytes) {key k : String} (data : Bytes)
    (h : k ≠ key) : store.write key data k = store k := if_neg h

theorem ObjectStore.write_eq (store : ObjectStore Bytes) (key : String) (data : Bytes) :
    store.write key data = fun k => if k = key then some data else store k := rfl

-- comparing two stores must not start to evaluate the comparison of their keys
attribute [irreducible] objectKey ObjectStore.write

/-- The store after whole objects, given by key, are written one after another. -/
def ObjectStore.writeAll (store : ObjectStore Bytes) (objects : List (String × Bytes)) :
    ObjectStore Bytes :=
  objects.foldl (fun store o => store.write o.1 o.2) store

/-- With distinct keys exactly these objects are replaced. -/
theorem ObjectStore.writeAll_apply (store : ObjectStore Bytes) {objects : List (String × Bytes)}
    (hnd : (objects.map Prod.fst).Nodup) (key : String) :
    store.writeAll objects key =
      ((objects.find? fun o => o.1 = key).map Prod.snd).or (store key) := by
  induction objects generalizing store with
  | nil => rfl
  | cons o objects ih =>
      rw [List.map_cons, List.nodup_cons] at hnd
      have hstep : store.writeAll (o :: objects) = (store.write o.1 o.2).writeAll objects := rfl
      rw [hstep, ih _ hnd.2]
      by_cases hk : o.1 = key
      · have hnone : (objects.find? fun o' => o'.1 = key) = none := by
          rw [List.find?_eq_none]
          intro o' ho' heq
          have hkey : o'.1 = o.1 := by rw [hk]; simpa using heq
          exact hnd.1 (hkey ▸ List.mem_map_of_mem (f := Prod.fst) ho')
        rw [hnone, List.find?_cons_of_pos (by simpa using hk), ← hk, write_self]
        rfl
      · rw [List.find?_cons_of_neg (by simpa using hk), store.write_ne _ (Ne.symm hk)]

/-- How a GET ends: served from the stored objects, or failing with any other error than
    `NoSuchKey`, which only an absent object gives. -/
inductive GetOutcome where
  | served
  | failed (e : Exc) (hcls : e.cls ≠ .clientError "NoSuchKey")

/-- A GET of `key`: the stored bytes, `NoSuchKey`, or the failure of the request. -/
def getObject (store : ObjectStore Bytes) (outcome : GetOutcome) (key : String) :
    Except Exc Bytes :=
  match outcome with
  | .failed e _ => .error e
  | .served =>
      match store key with
      | some data => .ok data
      | none => raise (.clientError "NoSuchKey") "The specified key does not exist."

/-- The body of a GET response, `none` for a missing key; other errors propagate. -/
def downloadBytes (response : Except Exc Bytes) : Except Exc (Option Bytes) :=
  match response with
  | .ok data => .ok (some data)
  | .error e => if e.cls = .clientError "NoSuchKey" then .ok none else .error e

/-- How a PUT ends: served, or failing with an error before or after it took effect. -/
inductive PutOutcome where
  | served
  | failed (e : Exc) (landed : Bool)

/-- A PUT that fails has not taken effect. -/
def PutOutcome.FailsCleanly : PutOutcome → Prop
  | .served => True
  | .failed _ landed => landed = false

def PutOutcome.isServed : PutOutcome → Bool
  | .served => true
  | .failed _ _ => false

/-- The PUT took effect, whether or not it was served. -/
def PutOutcome.tookEffect : PutOutcome → Bool
  | .served => true
  | .failed _ landed => landed

/-- A PUT of a whole object: its result and the store it leaves. -/
def uploadBytes (store : ObjectStore Bytes) (outcome : PutOutcome) (key : String) (data : Bytes) :
    Except Exc Unit × ObjectStore Bytes :=
  match outcome with
  | .served => (.ok (), store.write key data)
  | .failed e landed => (.error e, if landed then store.write key data else store)

theorem uploadBytes_ne (store : ObjectStore Bytes) (outcome : PutOutcome) {key k : String}
    (data : Bytes) (h : k ≠ key) : (uploadBytes store outcome key data).2 k = store k := by
  cases outcome with
  | served => exact store.write_ne data h
  | failed e landed =>
      cases landed with
      | true => exact store.write_ne data h
      | false => rfl

/-- The object of a PUT is the uploaded one exactly when the PUT took effect. -/
theorem uploadBytes_self (store : ObjectStore Bytes) (outcome : PutOutcome) (key : String)
    (data : Bytes) : (uploadBytes store outcome key data).2 key =
      if outcome.tookEffect then some data else store key := by
  cases outcome with
  | served => exact store.write_self key data
  | failed e landed =>
      cases landed with
      | true => exact store.write_self key data
      | false => rfl

theorem downloadBytes_getObject (store : ObjectStore Bytes) (key : String) :
    downloadBytes (getObject store .served key) = .ok (store key) := by
  unfold getObject
  cases store key <;> rfl

theorem downloadBytes_failed (store : ObjectStore Bytes) (key : String) {e : Exc}
    (hcls : e.cls ≠ .clientError "NoSuchKey") :
    downloadBytes (getObject store (.failed e hcls) key) = .error e := by
  unfold getObject downloadBytes
  exact if_neg hcls

/-- The body of a GET is what is stored. -/
theorem getObject_eq_ok {store : ObjectStore Bytes} {outcome : GetOutcome} {key : String}
    {data : Bytes} (h : getObject store outcome key = .ok data) : store key = some data := by
  cases outcome with
  | served =>
      unfold getObject at h
      cases hstored : store key with
      | none =>
          rw [hstored] at h
          exact absurd h (by simp)
      | some stored =>
          rw [hstored] at h
          rw [Except.ok.inj h]
  | failed e hcls => exact absurd h (by simp [getObject])

/-- A download that ends normally gives what is stored. -/
theorem downloadBytes_eq_ok {store : ObjectStore Bytes} {outcome : GetOutcome} {key : String}
    {data : Option Bytes} (h : downloadBytes (getObject store outcome key) = .ok data) :
    outcome = .served ∧ data = store key := by
  cases outcome with
  | served =>
      rw [downloadBytes_getObject, Except.ok.injEq] at h
      exact ⟨rfl, h.symm⟩
  | failed e hcls =>
      rw [downloadBytes_failed] at h
      exact absurd h (by simp)

end Requests

end ArgoExporter.S3io
