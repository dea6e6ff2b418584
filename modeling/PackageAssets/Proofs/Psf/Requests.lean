import PackageAssets.Psf.Decoder

/-!
# Requests to a PSF reader

A reader is asked for the headers, for the pairs in their order or for the
dictionary.
-/
namespace PackageAssets.Psf

/-- What a reader can be asked for. -/
inductive Request where
  | headers
  | pairs
  | dictionary

/-- What a request that succeeds is answered with. -/
inductive Answer where
  | done
  | pairs (found : List (String × Value))
  | dictionary (found : Dictionary)

def ask : Request → DecoderM Answer
  | .headers => do
    decodeHeaders
    return .done
  | .pairs => do return .pairs (← decodePairs)
  | .dictionary => do return .dictionary (← decode)

end PackageAssets.Psf
