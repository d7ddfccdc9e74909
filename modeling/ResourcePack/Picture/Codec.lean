import ResourcePack.Png.Decode
import ResourcePack.Png.Encode

/-!
# Conversion

A codec reads rasters from files and writes quantized pictures to files. Conversion is
reading, quantizing and writing.
-/

namespace ResourcePack

structure Codec where
  decode : Bytes → Except Picture.Error Raster
  encode : Quantized → Except Picture.Error Bytes

namespace Codec

def png : Codec where
  decode := Png.decode
  encode := Png.encode

def convert (codec : Codec) (data : Bytes) (options : ConvertOptions) :
    Except Picture.Error Bytes := do
  codec.encode (← Quantized.ofRaster (← codec.decode data) options)

end Codec

end ResourcePack
