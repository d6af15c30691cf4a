set_option autoImplicit false

/-!
# The built-in words

The words that names are made of where no word list is given.
-/
namespace JavaSynth

def defaultWords : List String :=
  ["acorn", "amber", "anchor", "apple", "arbor", "arrow", "aspen", "autumn", "badger", "bark",
    "basin", "beacon", "beech", "berry", "birch", "blossom", "bough", "bramble", "branch",
    "breeze", "brook", "bud", "burrow", "canopy", "canyon", "cedar", "cherry", "chestnut",
    "cinder", "clearing", "clover", "cloud", "cobble", "comet", "coral", "cottage", "creek",
    "crest", "crow", "dawn", "delta", "dew", "dove", "drift", "dune", "dusk", "eagle", "ember",
    "elm", "fern", "field", "finch", "fir", "flame", "flint", "flower", "fog", "forest", "fox",
    "frost", "garden", "glade", "glen", "grain", "granite", "grass", "grove", "gull", "harbor",
    "hare", "hawk", "hazel", "heath", "hedge", "heron", "hickory", "hill", "hollow", "honey",
    "ivy", "jay", "juniper", "kernel", "lake", "lantern", "larch", "lark", "laurel", "leaf",
    "ledge", "lichen", "light", "lily", "linden", "maple", "marsh", "meadow", "mesa", "mist",
    "moon", "moss", "moth", "mountain", "nectar", "nest", "night", "oak", "oasis", "orchard",
    "otter", "owl", "path", "pebble", "pine", "plain", "plum", "pond", "poplar", "prairie",
    "quail", "quarry", "rain", "raven", "reed", "ridge", "river", "robin", "root", "rose",
    "rowan", "sage", "sapling", "seed", "shade", "shore", "shrub", "sky", "slope", "snow", "soil",
    "sparrow", "spring", "spruce", "star", "stem", "stone", "storm", "stream", "summit", "sun",
    "swallow", "swamp", "thicket", "thistle", "thorn", "thrush", "timber", "trail", "tree",
    "trunk", "tulip", "twig", "vale", "valley", "vine", "violet", "walnut", "wander", "water",
    "wave", "willow", "wind", "winter", "wood", "wren", "yarrow", "yew", "zephyr"]

end JavaSynth
