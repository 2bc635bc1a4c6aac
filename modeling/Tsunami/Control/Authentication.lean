import Tsunami.Lib.Cyclic
import Tsunami.Lib.Duplex
import Tsunami.Common
import Tsunami.Md5

/-!
# Authentication

`prepare_proof` and the `ttp_authenticate` of either side. The secret is
repeated over the challenge and only the result is hashed, so that what is
proved is knowledge of the repeated secret.
-/

namespace Tsunami.Control.Authentication

open Cyclic Duplex Md5

structure Secret where
  bytes : List UInt8
  nonempty : bytes ≠ []
  cstring : (0 : UInt8) ∉ bytes

/-- `secret[offset % secret_length]`. The length is kept in 32 bits. -/
def Secret.key (secret : Secret) (offset : Nat) : UInt8 :=
  secret.bytes.getD (offset % u32 secret.bytes.length) 0

def Secret.keystream (secret : Secret) : List UInt8 := (List.range 64).map secret.key

def overlay (buffer : List UInt8) (secret : Secret) : List UInt8 :=
  buffer.mapIdx fun offset b => b ^^^ secret.key offset

/-- `prepare_proof` of a buffer that is not empty. The remainder traps where
the length of the secret is 0 in 32 bits. -/
def prepareProof (buffer : List UInt8) (secret : Secret) : Option (List UInt8) :=
  if u32 secret.bytes.length = 0 then none else some (md5Digest (overlay buffer secret))

inductive Piece
  | challenge
  | digest
  | result
  deriving DecidableEq, Repr

def server (random : List UInt8) (secret : Secret) : Script Piece Int :=
  .write .challenge random <|
  .read .digest 16 fun clientDigest =>
  match prepareProof random secret with
  | none => .halt
  | some serverDigest =>
    if clientDigest ≠ serverDigest then .put .result 1 (.goto (-1)) else .put .result 0 (.goto 0)

def client (secret : Secret) : Script Piece Int :=
  .read .challenge 64 fun random =>
  match prepareProof random secret with
  | none => .halt
  | some digest =>
    .write .digest digest <|
    .get .result fun result => .goto (if result = 0 then 0 else -1)

structure Attempt where
  server : Secret
  client : Secret
  random : List UInt8
  length_random : random.length = 64

def authentication (a : Attempt) : Transition.System (Pair Piece Int Int) Side :=
  duplex Script.goto Script.goto (client a.client) (server a.random a.server)

def Accepted (p : Pair Piece Int Int) : Prop := p.left.script = .goto 0 ∧ p.right.script = .goto 0

def Attempt.NoCollision (a : Attempt) : Prop :=
  md5Digest (overlay a.random a.client) = md5Digest (overlay a.random a.server) →
    overlay a.random a.client = overlay a.random a.server

/-- The lengths do not trap, and over 64 bytes the repeated secrets are the same. -/
structure Secret.Matches (s c : Secret) : Prop where
  server : u32 s.bytes.length ≠ 0
  client : u32 c.bytes.length ≠ 0
  keystream : s.keystream = c.keystream

-- ---------------------------------------------------------------------------
-- The end of an attempt
-- ---------------------------------------------------------------------------

theorem final_goto : Final (Script.goto : Int → Script Piece Int) := fun _ => rfl

theorem overlay_eq_iff (h : buffer.length = 64) (s c : Secret) :
    overlay buffer s = overlay buffer c ↔ s.keystream = c.keystream := by
  simp only [overlay, Secret.keystream, List.mapIdx_eq_mapIdx_iff, List.map_inj_left,
    List.mem_range, h, UInt8.xor_right_inj]

structure Attempt.Ends (a : Attempt) (p : Pair Piece Int Int) : Prop where
  clientTraps : u32 a.client.bytes.length = 0 → p.left.script = .halt
  serverTraps : u32 a.client.bytes.length ≠ 0 → u32 a.server.bytes.length = 0 →
    p.right.script = .halt
  same : u32 a.client.bytes.length ≠ 0 → u32 a.server.bytes.length ≠ 0 →
    md5Digest (overlay a.random a.client) = md5Digest (overlay a.random a.server) → Accepted p
  different : u32 a.client.bytes.length ≠ 0 → u32 a.server.bytes.length ≠ 0 →
    md5Digest (overlay a.random a.client) ≠ md5Digest (overlay a.random a.server) →
    p.right.script = .goto (-1)

theorem authentication_ends (a : Attempt) :
    Comes Script.goto Script.goto
      ⟨.start (client a.client), .start (server a.random a.server)⟩ a.Ends := by
  refine .toLeft a.length_random ?_
  by_cases hclient : u32 a.client.bytes.length = 0
  · rw [prepareProof, if_pos hclient]
    exact .now ⟨fun _ => rfl, fun h => absurd hclient h, fun h => absurd hclient h,
      fun h => absurd hclient h⟩
  · rw [prepareProof, if_neg hclient]
    refine .toRight (length_md5Digest _) ?_
    by_cases hserver : u32 a.server.bytes.length = 0
    · rw [prepareProof, if_pos hserver]
      exact .now ⟨fun h => absurd h hclient, fun _ _ => rfl, fun _ h => absurd hserver h,
        fun _ h => absurd hserver h⟩
    · rw [prepareProof, if_neg hserver]
      by_cases hdigest : md5Digest (overlay a.random a.client) =
        md5Digest (overlay a.random a.server)
      · simp only [hdigest, ne_eq, not_true, if_false]
        refine .right (.single rfl) (.left (does_get ..) (.now ?_))
        exact ⟨fun h => absurd h hclient, fun _ h => absurd h hserver, fun _ _ _ => ⟨rfl, rfl⟩,
          fun _ _ h => absurd hdigest h⟩
      · simp only [ne_eq, hdigest, not_false_eq_true, if_true]
        refine .right (.single rfl) (.now ?_)
        exact ⟨fun h => absurd h hclient, fun _ h => absurd h hserver,
          fun _ _ h => absurd h hdigest, fun _ _ _ => rfl⟩

/-- From every point of every run both sides get to return 0, if and only if
the secrets match. -/
theorem authenticates_iff (a : Attempt) (hmd5 : a.NoCollision)
    (hr : (authentication a).Reachable p) :
    Comes Script.goto Script.goto p Accepted ↔ a.server.Matches a.client := by
  obtain ⟨q, hq, hends⟩ := authentication_ends a
  have hp := reachable_iff.mp hr
  constructor
  · rintro ⟨u, hu, hleft, hright⟩
    have hu := hp.trans hu
    have hclient : u32 a.client.bytes.length ≠ 0 := fun h =>
      no_left_result final_goto hq hu (hends.clientTraps h) hleft
    have hserver : u32 a.server.bytes.length ≠ 0 := fun h =>
      no_right_result final_goto hq hu (hends.serverTraps hclient h) hright
    refine ⟨hserver, hclient, ?_⟩
    by_contra hkey
    have hdigest : md5Digest (overlay a.random a.client) ≠ md5Digest (overlay a.random a.server) :=
      fun h => hkey ((overlay_eq_iff a.length_random _ _).mp (hmd5 h)).symm
    have hstatus := right_result final_goto hq hu (hends.different hclient hserver hdigest) hright
    exact absurd hstatus (by decide)
  · rintro ⟨hserver, hclient, hkey⟩
    have hdigest : md5Digest (overlay a.random a.client) = md5Digest (overlay a.random a.server) :=
      congrArg md5Digest ((overlay_eq_iff a.length_random _ _).mpr hkey.symm)
    obtain ⟨hleft, hright⟩ := hends.same hclient hserver hdigest
    obtain ⟨d, hd, hd'⟩ := confluent hp hq
    exact ⟨d, hd, hd'.left_goto final_goto hleft, hd'.right_goto final_goto hright⟩

def kitten : Secret := ⟨[107, 105, 116, 116, 101, 110], by decide, by decide⟩

theorem kitten_authenticates :
    Comes Script.goto Script.goto
      ⟨.start (client kitten), .start (server (List.replicate 64 0) kitten)⟩ Accepted :=
  (authenticates_iff ⟨kitten, kitten, List.replicate 64 0, rfl⟩ (fun _ => rfl) (.init rfl)).mpr
    ⟨by decide, by decide, rfl⟩

/-- `a` on the server, `aa` on the client. -/
def doubled : Attempt where
  server := ⟨[97], by decide, by decide⟩
  client := ⟨[97, 97], by decide, by decide⟩
  random := List.replicate 64 0
  length_random := rfl

theorem doubled_secret_accepted :
    doubled.server.bytes ≠ doubled.client.bytes ∧ doubled.NoCollision ∧
      ∃ p, (authentication doubled).Reachable p ∧ Accepted p := by
  have hkey : doubled.server.keystream = doubled.client.keystream := by decide
  have hproof := (overlay_eq_iff doubled.length_random _ _).mpr hkey.symm
  obtain ⟨p, hp, hends⟩ := authentication_ends doubled
  exact ⟨by decide, fun _ => hproof, p, reachable_iff.mpr hp,
    hends.same (by decide) (by decide) (congrArg md5Digest hproof)⟩

-- ---------------------------------------------------------------------------
-- Which secrets are told apart
-- ---------------------------------------------------------------------------

theorem Secret.key_eq_cyclic (s : Secret) (h : s.bytes.length < 2 ^ 32) :
    s.key = cyclic 0 s.bytes := by
  funext offset
  rw [key, u32_of_lt h]
  rfl

/-- Where both fit into the challenge together, secrets match exactly if they
commute: both repeat one and the same shorter word. -/
theorem matches_iff_commute (s c : Secret) (h : s.bytes.length + c.bytes.length ≤ 64) :
    s.Matches c ↔ s.bytes ++ c.bytes = c.bytes ++ s.bytes := by
  have hs : s.bytes.length < 2 ^ 32 := by omega
  have hc : c.bytes.length < 2 ^ 32 := by omega
  have hs0 := List.length_pos_iff.mpr s.nonempty
  have hc0 := List.length_pos_iff.mpr c.nonempty
  rw [← cyclic_agree_iff 0 s.nonempty c.nonempty]
  constructor
  · rintro ⟨-, -, hkey⟩ i hi
    rw [Secret.keystream, Secret.keystream, List.map_inj_left, s.key_eq_cyclic hs,
      c.key_eq_cyclic hc] at hkey
    exact hkey i (List.mem_range.mpr (Nat.lt_of_lt_of_le hi h))
  · intro hagree
    refine ⟨by rw [u32_of_lt hs]; omega, by rw [u32_of_lt hc]; omega, ?_⟩
    rw [Secret.keystream, Secret.keystream, s.key_eq_cyclic hs, c.key_eq_cyclic hc]
    exact List.map_congr_left fun i _ =>
      eq_of_periodic (cyclic_periodic 0 s.bytes) (cyclic_periodic 0 c.bytes) hs0 hc0 hagree i

theorem Secret.Matches.eq {s c : Secret} (h : s.Matches c) (hlen : s.bytes.length = c.bytes.length)
    (hshort : s.bytes.length ≤ 64) : s.bytes = c.bytes := by
  have hkey := h.keystream
  rw [Secret.keystream, Secret.keystream, List.map_inj_left, s.key_eq_cyclic (by omega),
    c.key_eq_cyclic (by omega)] at hkey
  refine List.ext_getElem hlen fun i hi hi' => ?_
  have := hkey i (List.mem_range.mpr (Nat.lt_of_lt_of_le hi hshort))
  rwa [cyclic_of_lt 0 hi, cyclic_of_lt 0 hi'] at this

end Tsunami.Control.Authentication
