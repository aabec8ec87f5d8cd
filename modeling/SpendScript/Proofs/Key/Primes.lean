import SpendScript.Key.Secp256k1
import SpendScript.Proofs.Number.Lucas

/-!
# The primes of secp256k1

Results:
* `Secp256k1.prime_p`, `Secp256k1.prime_n`: the modulus of the field and the order of the
  generator are primes.
-/

namespace SpendScript.Secp256k1

open SpendScript.Number (LucasEntry)

/-- The order and the modulus, each after the large prime factors of its predecessor. -/
def certificate : List LucasEntry :=
  [⟨16699, 3, [2, 3, 11, 11, 23]⟩,
    ⟨85831, 3, [2, 3, 5, 2861]⟩,
    ⟨4681609, 23, [2, 2, 2, 3, 97, 2011]⟩,
    ⟨107361793816595537, 3, [2, 2, 2, 2, 16699, 85831, 4681609]⟩,
    ⟨120233, 3, [2, 2, 2, 7, 19, 113]⟩,
    ⟨44706919, 6, [2, 3, 797, 9349]⟩,
    ⟨174723607534414371449, 3, [2, 2, 2, 17, 59, 4051, 120233, 44706919]⟩,
    ⟨305873, 3, [2, 2, 2, 2, 7, 2731]⟩,
    ⟨28181, 2, [2, 2, 5, 1409]⟩,
    ⟨545358713, 5, [2, 2, 2, 41, 59, 28181]⟩,
    ⟨1627771, 3, [2, 3, 5, 29, 1871]⟩,
    ⟨297159362677, 2, [2, 2, 3, 3, 11, 461, 1627771]⟩,
    ⟨29047611873442575647497758179, 2, [2, 293, 305873, 545358713, 297159362677]⟩,
    ⟨341948486974166000522343609283189, 2, [2, 2, 3, 3, 3, 109, 29047611873442575647497758179]⟩,
    ⟨n, 7,
      [2, 2, 2, 2, 2, 2, 3, 149, 631, 107361793816595537, 174723607534414371449,
        341948486974166000522343609283189]⟩,
    ⟨13441, 11, [2, 2, 2, 2, 2, 2, 2, 3, 5, 7]⟩,
    ⟨24809, 6, [2, 2, 2, 7, 443]⟩,
    ⟨13331831, 13, [2, 5, 971, 1373]⟩,
    ⟨173378833005251801, 6, [2, 2, 2, 5, 5, 2621, 24809, 13331831]⟩,
    ⟨22149492674086928081353, 5, [2, 2, 2, 3, 5323, 173378833005251801]⟩,
    ⟨132896956044521568488119, 6, [2, 3, 22149492674086928081353]⟩,
    ⟨41201, 3, [2, 2, 2, 2, 5, 5, 103]⟩,
    ⟨96557, 2, [2, 2, 101, 239]⟩,
    ⟨20113, 10, [2, 2, 2, 2, 3, 419]⟩,
    ⟨1206781, 10, [2, 2, 3, 5, 20113]⟩,
    ⟨7240687, 3, [2, 3, 1206781]⟩,
    ⟨107590001, 3, [2, 2, 2, 2, 5, 5, 5, 5, 7, 29, 53]⟩,
    ⟨255515944373312847190720520512484175977, 3,
      [2, 2, 2, 7, 7, 11, 1627, 2657, 4423, 41201, 96557, 7240687, 107590001]⟩,
    ⟨205115282021455665897114700593932402728804164701536103180137503955397371, 10,
      [2, 3, 5, 29, 29, 31, 7723, 132896956044521568488119,
        255515944373312847190720520512484175977]⟩,
    ⟨p, 3,
      [2, 3, 7, 13441,
        205115282021455665897114700593932402728804164701536103180137503955397371]⟩]

theorem certified_certificate : Number.certified [] certificate = true := by
  decide +kernel

theorem prime_of_mem_certificate {e : LucasEntry} (he : e ∈ certificate) : e.number.Prime :=
  Number.prime_of_certified (fun _ hq => absurd hq List.not_mem_nil) certified_certificate e he

theorem prime_p : Nat.Prime p :=
  prime_of_mem_certificate (List.getElem_mem (show 29 < certificate.length by decide))

theorem prime_n : Nat.Prime n :=
  prime_of_mem_certificate (List.getElem_mem (show 14 < certificate.length by decide))

instance fact_prime_p : Fact (Nat.Prime p) :=
  ⟨prime_p⟩

instance fact_prime_n : Fact (Nat.Prime n) :=
  ⟨prime_n⟩

end SpendScript.Secp256k1
