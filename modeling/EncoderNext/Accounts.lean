import EncoderNext.Decimal
import EncoderNext.LineFile
import EncoderNext.ServerCall

/-!
# Accounts

A record keeps a salt and the PBKDF2 hash of the password in hexadecimal; a
blocked account or a record that cannot be read verifies nothing. The file has a
line for each account; older lines end after the hash or after the block.
-/

namespace EncoderNext

open Program

/-- PBKDF2 with HMAC-SHA-256: password, salt and iterations. -/
abbrev PasswordKdf : Type := Bytes → Bytes → Nat → Option (Vector UInt8 32)

/-- One digit as `std::stoi` reads it in base 16; it throws elsewhere. -/
def hexNibble (c : UInt8) : Option UInt8 :=
  if byte 'A' ≤ c && c ≤ byte 'F' then some (c - byte 'A' + 10) else unhex c

/-- The bytes of a salt; a text of odd length gives none of them. -/
def hexToBytes : Bytes → Option Bytes
  | hi :: lo :: rest => do
    let h ← hexNibble hi
    let l ← hexNibble lo
    return (h <<< 4 ||| l) :: (← hexToBytes rest)
  | _ => some []

def saltBytes (hex : Bytes) : Option Bytes :=
  if hex.length % 2 ≠ 0 then some [] else hexToBytes hex

namespace UserStore

abbrev Entry : Type := Sigma fun _ : Bytes => UserRecord

def dropCr (s : Bytes) : Bytes := if s.getLast? = some cr then s.dropLast else s

def readPermissions (s : Bytes) : UInt32 :=
  match s with
  | [c] => if byte '0' ≤ c ∧ c ≤ byte '3' then (c - byte '0').toUInt32 else 0
  | _ => 0

def loadLine (users : UserStore) (line : Bytes) : UserStore :=
  if line.head? = some (byte '#') then users
  else
    match parts (byte ':') line with
    | username :: saltHex :: hashHex :: rest =>
      users.insert username
        { username := username, saltHex := saltHex, hashHex := hashHex
          -- older records end with the hash
          blocked := match rest with
            | [] => false
            | blocked :: _ => dropCr blocked != bytes "0"
          permissions := match rest with
            | _ :: permissions :: _ => readPermissions (dropCr permissions)
            | _ => 3 }
    | _ => users

/-- `load` on the bytes of the file; without a file there are no accounts. -/
def load (file : Option Bytes) : UserStore :=
  match file with
  | none => ∅
  | some text => (lines text).foldl loadLine ∅

def userLine (e : Entry) : Bytes :=
  joined (byte ':') [e.2.username, e.2.saltHex, e.2.hashHex,
    if e.2.blocked then bytes "1" else bytes "0", decimal e.2.permissions.toNat]

def usersText (es : List Entry) : Bytes := es.flatMap fun e => userLine e ++ [lf]

/-- The accounts are written beside the file, which is then replaced. -/
def save (users : UserStore) (path : Bytes) : ServerProgram Bool := do
  let temporary := path ++ bytes ".tmp"
  let es ← act (.walk users)
  let written ← act (.writeText temporary (usersText es.1))
  if !written then return false
  act (.rename temporary path)

def iterations : Nat := 120000

/-- Nothing where the source throws, and no text where the function fails. -/
def pbkdf2Hash (kdf : PasswordKdf) (password saltHex : Bytes) : Option Bytes :=
  (saltBytes saltHex).map fun salt =>
    match kdf password salt iterations with
    | none => []
    | some out => toHex out.toList

def verify (kdf : PasswordKdf) (users : UserStore) (username password : Bytes) : Bool :=
  match users.lookup username with
  | none => false
  | some rec =>
    if rec.blocked then false
    else
      match pbkdf2Hash kdf password rec.saltHex with
      | none => false
      | some computed => computed != [] && computed == rec.hashHex

theorem verify_iff {kdf : PasswordKdf} {users : UserStore} {username password : Bytes} :
    verify kdf users username password = true ↔ ∃ rec, users.lookup username = some rec ∧
      rec.blocked = false ∧ rec.hashHex ≠ [] ∧
      pbkdf2Hash kdf password rec.saltHex = some rec.hashHex := by
  unfold verify
  cases hrec : users.lookup username with
  | none => simp
  | some rec =>
    cases hblocked : rec.blocked with
    | true => simp [hblocked]
    | false =>
      cases hhash : pbkdf2Hash kdf password rec.saltHex with
      | none => simp [hhash]
      | some computed =>
        simp only [Bool.false_eq_true, if_false, Bool.and_eq_true, bne_iff_ne, beq_iff_eq, Option.some.injEq,
          exists_eq_left', hblocked, true_and, hhash]
        constructor
        · rintro ⟨hne, rfl⟩
          exact ⟨hne, rfl⟩
        · rintro ⟨hne, rfl⟩
          exact ⟨hne, rfl⟩

def exists_ (users : UserStore) (username : Bytes) : Bool := (users.lookup username).isSome

theorem exists_of_verify {kdf : PasswordKdf} {users : UserStore} {username password : Bytes}
    (h : verify kdf users username password = true) : exists_ users username = true := by
  obtain ⟨rec, hrec, -⟩ := verify_iff.mp h
  rw [exists_, hrec]
  rfl

def permissions (users : UserStore) (username : Bytes) : UInt32 :=
  match users.lookup username with
  | none => 0
  | some rec => rec.permissions

def nameByte (c : UInt8) : Bool :=
  (byte 'a' ≤ c && c ≤ byte 'z') || (byte 'A' ≤ c && c ≤ byte 'Z') ||
  (byte '0' ≤ c && c ≤ byte '9') || c == byte '_' || c == byte '-' || c == byte '.'

def validUsername (username : Bytes) : Bool :=
  username != [] && username.length ≤ 64 && username.all nameByte

def setPermissions (users : UserStore) (username : Bytes) (permissions : UInt32) : Option UserStore :=
  match users.lookup username with
  | none => none
  | some rec =>
    if permissions > 3 then none
    else some (users.insert username { rec with permissions := permissions })

def setBlocked (users : UserStore) (username : Bytes) (blocked : Bool) : Option UserStore :=
  (users.lookup username).map fun rec => users.insert username { rec with blocked := blocked }

def upsert (kdf : PasswordKdf) (users : UserStore) (username password : Bytes) :
    ServerProgram (Option UserStore) := do
  if (!exists_ users username && !validUsername username) || password == [] ||
      password.length > 1024 then return none
  let (drawn, salt) ← act (.random 16)
  if !drawn then return none
  let saltHex := toHex salt.toList
  match pbkdf2Hash kdf password saltHex with
  | none | some [] => return none
  | some hashHex =>
    -- a block and permissions outlast a new password
    let kept := (users.lookup username).getD {}
    return some (users.insert username
      { username := username, saltHex := saltHex, hashHex := hashHex
        blocked := kept.blocked, permissions := kept.permissions })

end UserStore

end EncoderNext
